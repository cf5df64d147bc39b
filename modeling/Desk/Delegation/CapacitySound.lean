import Desk.Delegation.Capacity
import Mathlib.Data.List.Nodup
import Mathlib.Algebra.GroupWithZero.Nat

/-!
# Counts of shared capacity

An entry counts its holders, and only an entry that nobody holds is dropped.
The counts follow from what one pass through the lock does to the holders.
-/

namespace Desk.Capacity

/-- An entry has two counts, of all its holders and of those in the background. -/
inductive Tally
  | active
  | background

namespace Tally

def field : Tally → Entry → Int
  | active => Entry.active
  | background => Entry.background

def counts {K : Type} : Tally → Hold K → Bool
  | active => fun _ => true
  | background => Hold.background

def most : Tally → Int
  | active => 4
  | background => 2

end Tally

namespace State

variable {K : Type} [DecidableEq K]

/-- The holders of a key that were admitted and have not let go. -/
def held (s : State K) (t : Tally) (key : K) : Nat :=
  s.holds.countP fun h => decide (h.key = key) && !h.released && t.counts h

/-- The recorded count; a key without an entry has none. -/
def recorded (s : State K) (t : Tally) (key : K) : Int :=
  match s.entries key with
  | some e => t.field (s.heap e)
  | none => 0

end State

variable {K : Type} [DecidableEq K]

structure Inv (s : State K) : Prop where
  made : ∀ key e, s.entries key = some e → e < s.made
  apart : ∀ key key' e, s.entries key = some e → s.entries key' = some e → key = key'
  holders : ∀ h ∈ s.holds, h.released = false → s.entries h.key = some h.entry
  recorded : ∀ t key, s.recorded t key = s.held t key
  most : ∀ t key, s.recorded t key ≤ t.most
  closed : ∀ c ∈ s.closed, c < s.channels
  current : ∀ c, s.changed = some c → c < s.channels ∧ c ∉ s.closed
  closed_once : s.closed.Nodup
  woken : s.holds ≠ [] → s.changed.isSome = true

theorem inv_init : Inv (init : State K) where
  made _ _ h := by cases h
  apart _ _ _ h := by cases h
  holders _ h := by cases h
  recorded _ _ := rfl
  most t _ := by
    cases t with
    | active => exact show (0 : Int) ≤ 4 by decide
    | background => exact show (0 : Int) ≤ 2 by decide
  closed _ h := by cases h
  current _ h := by cases h
  closed_once := List.nodup_nil
  woken h := absurd rfl h

/-! ## Entries -/

theorem inv_ready {s : State K} (h : Inv s) : Inv s.ready := by
  unfold State.ready
  split
  · exact h
  · exact
      { made := h.made
        apart := h.apart
        holders := h.holders
        recorded := h.recorded
        most := h.most
        closed := fun c hc => Nat.lt_succ_of_lt (h.closed c hc)
        current := by
          intro c hc
          obtain rfl := Option.some.inj hc
          exact ⟨Nat.lt_succ_self _, fun hmem => Nat.lt_irrefl _ (h.closed _ hmem)⟩
        closed_once := h.closed_once
        woken := fun _ => rfl }

omit [DecidableEq K] in
theorem ready_changed (s : State K) : s.ready.changed.isSome = true := by
  unfold State.ready
  split
  · rename_i hsome
    rw [hsome]
    rfl
  · rfl

/-- A key without an entry has no holders. -/
theorem Inv.released_of_none {s : State K} (h : Inv s) {key : K} (hkey : s.entries key = none) {r : Hold K} (hr : r ∈ s.holds)
    (hrkey : r.key = key) : r.released = true := by
  cases hreleased : r.released with
  | true => rfl
  | false =>
    have hentry := h.holders r hr hreleased
    rw [hrkey, hkey] at hentry
    cases hentry

theorem entry_entries (s : State K) (key : K) : (s.entry key).1.entries key = some (s.entry key).2 := by
  unfold State.entry
  split
  · rename_i e he
    exact he
  · exact Function.update_self ..

theorem inv_entry {s : State K} (h : Inv s) (key : K) : Inv (s.entry key).1 := by
  unfold State.entry
  split
  · exact h
  · rename_i hkey
    have hne : ∀ {key' e}, s.entries key' = some e → e ≠ s.made := fun he => Nat.ne_of_lt (h.made _ _ he)
    have hother : ∀ {key'}, key' ≠ key → Function.update s.entries key (some s.made) key' = s.entries key' :=
      fun hne => Function.update_of_ne hne _ _
    have hself : ∀ {e}, Function.update s.entries key (some s.made) key = some e → e = s.made := by
      intro e he
      rw [Function.update_self, Option.some.injEq] at he
      exact he.symm
    -- the other entries are where they were, and the new one counts nothing
    have hrecorded : ∀ t key', State.recorded { s with
        entries := Function.update s.entries key (some s.made)
        heap := Function.update s.heap s.made ⟨0, 0, 0⟩
        made := s.made + 1 } t key' = s.recorded t key' := by
      intro t key'
      unfold State.recorded
      by_cases hkey' : key' = key
      · subst hkey'
        simp only [Function.update_self, hkey]
        cases t <;> rfl
      · simp only [hother hkey']
        cases he : s.entries key' with
        | none => rfl
        | some e => simp only [Function.update_of_ne (hne he)]
    exact
      { made := by
          intro key' e he
          by_cases hkey' : key' = key
          · subst hkey'
            exact hself he ▸ Nat.lt_succ_self _
          · exact Nat.lt_succ_of_lt (h.made key' e ((hother hkey').symm.trans he))
        apart := by
          intro k k' e he he'
          by_cases hk : k = key
          · subst hk
            by_cases hk' : k' = k
            · exact hk'.symm
            · exact absurd (hself he) (hne ((hother hk').symm.trans he'))
          · have hold := (hother hk).symm.trans he
            by_cases hk' : k' = key
            · subst hk'
              exact absurd (hself he') (hne hold)
            · exact h.apart k k' e hold ((hother hk').symm.trans he')
        holders := by
          intro r hr hreleased
          refine (hother fun hrkey => ?_).trans (h.holders r hr hreleased)
          rw [h.released_of_none hkey hr hrkey] at hreleased
          cases hreleased
        recorded := fun t key' => (hrecorded t key').trans (h.recorded t key')
        most := fun t key' => hrecorded t key' ▸ h.most t key'
        closed := h.closed
        current := h.current
        closed_once := h.closed_once
        woken := h.woken }

/-! ## Taking -/

theorem held_append (s : State K) (r : Hold K) (t : Tally) (key : K) :
    State.held { s with holds := s.holds ++ [r] } t key =
      s.held t key + if (decide (r.key = key) && !r.released && t.counts r) = true then 1 else 0 := by
  rw [State.held, State.held, List.countP_append, List.countP_singleton]

/-- What a hold adds to a count. -/
def weight (t : Tally) (background : Bool) : Int :=
  match t with
  | .active => 1
  | .background => if background then 1 else 0

theorem inv_enter {s : State K} (h : Inv s) {key : K} {e : Nat} (he : s.entries key = some e) {background : Bool}
    (hroom : s.full e background = false) (hready : s.changed.isSome = true) : Inv (s.enter key e background) := by
  have hcounts : ∀ t : Tally, (s.heap e |> t.field) + weight t background ≤ t.most := by
    rw [State.full, Bool.or_eq_false_iff] at hroom
    intro t
    cases t with
    | active =>
      have hlimit : (s.heap e).active < s.limit e := by simpa using hroom.1
      have hmost : s.limit e ≤ 4 := by
        rw [State.limit]
        split <;> decide
      exact Int.le_trans (Int.add_one_le_of_lt hlimit) hmost
    | background =>
      cases background with
      | false =>
        have hmost := h.most .background key
        rw [State.recorded, he] at hmost
        exact (Int.add_zero _).symm ▸ hmost
      | true =>
        have hlimit : (s.heap e).background < 2 := by simpa using hroom.2
        exact Int.add_one_le_of_lt hlimit
  have hfield : ∀ t : Tally, t.field { s.heap e with
      active := (s.heap e).active + 1
      background := (s.heap e).background + if background then 1 else 0 } = t.field (s.heap e) + weight t background := by
    intro t
    cases t <;> rfl
  have hrecorded : ∀ t key', (s.enter key e background).recorded t key' =
      s.recorded t key' + if key' = key then weight t background else 0 := by
    intro t key'
    unfold State.recorded State.enter
    by_cases hkey : key' = key
    · subst hkey
      simp only [he, Function.update_self, if_true]
      exact hfield t
    · rw [if_neg hkey, Int.add_zero]
      cases he' : s.entries key' with
      | none => rfl
      | some e' =>
        have hne : e' ≠ e := fun heq => hkey (h.apart key' key e (heq ▸ he') he)
        simp only [Function.update_of_ne hne]
  exact
    { made := h.made
      apart := h.apart
      holders := by
        intro r hr hreleased
        rcases List.mem_append.mp hr with hr | hr
        · exact h.holders r hr hreleased
        · obtain rfl := List.mem_singleton.mp hr
          exact he
      recorded := by
        intro t key'
        have hheld : (s.enter key e background).held t key' = _ := held_append s ⟨key, e, background, false⟩ t key'
        rw [hrecorded, h.recorded, hheld]
        by_cases hkey : key' = key
        · subst hkey
          cases t <;> cases background <;> simp [weight, Tally.counts]
        · simp [hkey, Ne.symm hkey]
      most := by
        intro t key'
        rw [hrecorded]
        by_cases hkey : key' = key
        · subst hkey
          rw [if_pos rfl, State.recorded, he]
          exact hcounts t
        · rw [if_neg hkey, Int.add_zero]
          exact h.most t key'
      closed := h.closed
      current := h.current
      closed_once := h.closed_once
      woken := fun _ => hready }

theorem changed_entry (s : State K) (key : K) : (s.entry key).1.changed = s.changed := by
  unfold State.entry
  split <;> rfl

theorem inv_take {s : State K} (h : Inv s) (key : K) (background : Bool) : Inv (s.take key background).1 := by
  have hready := inv_entry (inv_ready h) key
  unfold State.take
  dsimp only
  split
  · exact hready
  · rename_i hroom
    refine inv_enter hready (entry_entries _ _) (Bool.eq_false_iff.mpr hroom) ?_
    rw [changed_entry]
    exact ready_changed s

/-! ## Letting go -/

/-- A release function that was called. -/
def State.mark (s : State K) (i : Nat) (h : Hold K) : State K := { s with holds := s.holds.set i { h with released := true } }

theorem held_mark {s : State K} {i : Nat} {r : Hold K} (hi : s.holds[i]? = some r) (hreleased : r.released = false) (t : Tally)
    (key : K) : (s.held t key : Int) = (s.mark i r).held t key + if key = r.key then weight t r.background else 0 := by
  obtain ⟨hlt, hget⟩ := List.getElem?_eq_some_iff.mp hi
  let p : Hold K → Bool := fun h => decide (h.key = key) && !h.released && t.counts h
  have hmarked : p { r with released := true } = false := by simp [p]
  have hweight : (if key = r.key then weight t r.background else 0) = if p r = true then 1 else 0 := by
    by_cases hkey : key = r.key
    · subst hkey
      cases t <;> cases hbackground : r.background <;> simp [p, hreleased, hbackground, weight, Tally.counts]
    · simp [p, hkey, Ne.symm hkey]
  have hmark : (s.mark i r).held t key = s.holds.countP p - if p r = true then 1 else 0 := by
    change (s.holds.set i { r with released := true }).countP p = _
    rw [List.countP_set hlt, hget, hmarked, if_neg Bool.false_ne_true, Nat.add_zero]
  rw [hmark, hweight, show s.held t key = s.holds.countP p from rfl]
  by_cases hp : p r = true
  · have hone : 0 < s.holds.countP p := List.countP_pos_iff.mpr ⟨r, List.mem_of_getElem? hi, hp⟩
    rw [if_pos hp, if_pos hp]
    omega
  · rw [if_neg hp, if_neg hp, Nat.sub_zero, Int.add_zero]

/-- One holder less, and its entry counts one less. -/
theorem inv_letGo {s : State K} (h : Inv s) {i : Nat} {r : Hold K} (hi : s.holds[i]? = some r) (hreleased : r.released = false) :
    Inv ((s.mark i r).letGo r) := by
  have hentry := h.holders r (List.mem_of_getElem? hi) hreleased
  have hfield : ∀ t : Tally, t.field { s.heap r.entry with
      active := (s.heap r.entry).active - 1
      background := (s.heap r.entry).background - if r.background then 1 else 0 } =
        t.field (s.heap r.entry) - weight t r.background := by
    intro t
    cases t <;> rfl
  have hrecorded : ∀ t key, ((s.mark i r).letGo r).recorded t key =
      s.recorded t key - if key = r.key then weight t r.background else 0 := by
    intro t key
    unfold State.recorded State.letGo State.mark
    by_cases hkey : key = r.key
    · subst hkey
      simp only [hentry, Function.update_self, if_true]
      exact hfield t
    · rw [if_neg hkey, Int.sub_zero]
      cases he : s.entries key with
      | none => rfl
      | some e =>
        have hne : e ≠ r.entry := fun heq => hkey (h.apart key r.key r.entry (heq ▸ he) hentry)
        simp only [Function.update_of_ne hne]
  have hweight : ∀ t, 0 ≤ weight t r.background := by
    intro t
    cases t <;> cases r.background <;> decide
  exact
    { made := h.made
      apart := h.apart
      holders := by
        intro r' hr' hreleased'
        rcases List.mem_or_eq_of_mem_set hr' with hr' | rfl
        · exact h.holders r' hr' hreleased'
        · cases hreleased'
      recorded := by
        intro t key
        have hheld : ((s.mark i r).letGo r).held t key = (s.mark i r).held t key := rfl
        rw [hrecorded, h.recorded, held_mark hi hreleased, hheld]
        omega
      most := by
        intro t key
        have hmost := h.most t key
        have := hweight t
        rw [hrecorded]
        split <;> omega
      closed := h.closed
      current := h.current
      closed_once := h.closed_once
      woken := by
        intro _
        refine h.woken fun hnil => ?_
        rw [hnil] at hi
        cases hi }

theorem inv_drop {s : State K} (h : Inv s) {r : Hold K} (hentry : s.entries r.key = some r.entry) : Inv (s.drop r) := by
  unfold State.drop
  split
  · rename_i hidle
    have hother : ∀ {key}, key ≠ r.key → Function.update s.entries r.key none key = s.entries key :=
      fun hne => Function.update_of_ne hne _ _
    have hself : ∀ {e}, Function.update s.entries r.key none r.key ≠ some e := by
      intro e he
      rw [Function.update_self] at he
      cases he
    have hzero : s.held .active r.key = 0 := by
      have hrecorded := h.recorded .active r.key
      rw [State.recorded, hentry] at hrecorded
      exact_mod_cast hrecorded.symm.trans hidle.1
    -- nobody holds the entry that goes, so nobody holds it in the background either
    have hnone : ∀ t, s.held t r.key = 0 := by
      intro t
      refine Nat.eq_zero_of_le_zero (hzero ▸ List.countP_mono_left ?_)
      intro x _ hx
      rw [Bool.and_eq_true] at hx ⊢
      exact ⟨hx.1, rfl⟩
    have hrecorded : ∀ t key, State.recorded { s with entries := Function.update s.entries r.key none } t key =
        s.recorded t key := by
      intro t key
      by_cases hkey : key = r.key
      · subst hkey
        rw [h.recorded, hnone, State.recorded]
        simp only [Function.update_self]
        rfl
      · unfold State.recorded
        simp only [hother hkey]
    exact
      { made := by
          intro key e he
          by_cases hkey : key = r.key
          · exact absurd (hkey ▸ he) hself
          · exact h.made key e ((hother hkey).symm.trans he)
        apart := by
          intro k k' e he he'
          by_cases hk : k = r.key
          · exact absurd (hk ▸ he) hself
          · by_cases hk' : k' = r.key
            · exact absurd (hk' ▸ he') hself
            · exact h.apart k k' e ((hother hk).symm.trans he) ((hother hk').symm.trans he')
        holders := by
          intro r' hr' hreleased
          refine (hother fun hkey => ?_).trans (h.holders r' hr' hreleased)
          have hpos : 0 < s.held .active r.key :=
            List.countP_pos_iff.mpr ⟨r', hr', by simp [hkey, hreleased, Tally.counts]⟩
          omega
        recorded := fun t key => (hrecorded t key).trans (h.recorded t key)
        most := fun t key => hrecorded t key ▸ h.most t key
        closed := h.closed
        current := h.current
        closed_once := h.closed_once
        woken := h.woken }
  · exact h

theorem inv_wake {s : State K} (h : Inv s) : Inv s.wake where
  made := h.made
  apart := h.apart
  holders := h.holders
  recorded := h.recorded
  most := h.most
  closed c hc := by
    rcases List.mem_append.mp hc with hc | hc
    · exact Nat.lt_succ_of_lt (h.closed c hc)
    · exact Nat.lt_succ_of_lt (h.current c (Option.mem_toList.mp hc)).1
  current c hc := by
    obtain rfl := Option.some.inj hc
    refine ⟨Nat.lt_succ_self _, fun hmem => ?_⟩
    rcases List.mem_append.mp hmem with hmem | hmem
    · exact Nat.lt_irrefl _ (h.closed _ hmem)
    · exact Nat.lt_irrefl _ (h.current _ (Option.mem_toList.mp hmem)).1
  closed_once := by
    unfold State.wake
    cases hchanged : s.changed with
    | none => exact (List.append_nil s.closed).symm ▸ h.closed_once
    | some c => exact List.nodup_append.mpr ⟨h.closed_once, List.nodup_singleton c, fun c' hc' d hd heq =>
        (h.current c hchanged).2 (List.mem_singleton.mp hd ▸ heq ▸ hc')⟩
  woken _ := rfl

/-- Whether a call of a release function is its first. -/
def State.lets (s : State K) (i : Nat) : Bool := s.holds[i]?.any fun h => !h.released

theorem release_of_lets {s : State K} {i : Nat} (h : s.lets i = true) : ∃ r, s.holds[i]? = some r ∧ r.released = false ∧
    s.release i = (((s.mark i r).letGo r).drop r).wake := by
  unfold State.lets at h
  cases hr : s.holds[i]? with
  | none =>
    rw [hr] at h
    cases h
  | some r =>
    rw [hr] at h
    have hreleased : r.released = false := by simpa using h
    refine ⟨r, rfl, hreleased, ?_⟩
    unfold State.release
    simp only [hr, hreleased]
    rfl

theorem release_of_not_lets {s : State K} {i : Nat} (h : s.lets i = false) : s.release i = s := by
  unfold State.lets at h
  unfold State.release
  cases hr : s.holds[i]? with
  | none => rfl
  | some r =>
    rw [hr] at h
    have hreleased : r.released = true := by simpa using h
    simp only [hreleased, if_true]

theorem inv_release {s : State K} (h : Inv s) (i : Nat) : Inv (s.release i) := by
  cases hlets : s.lets i with
  | false => exact (release_of_not_lets hlets).symm ▸ h
  | true =>
    obtain ⟨r, hr, hreleased, hrelease⟩ := release_of_lets hlets
    rw [hrelease]
    exact inv_wake (inv_drop (inv_letGo h hr hreleased) (h.holders r (List.mem_of_getElem? hr) hreleased))

/-! ## Throttling -/

theorem inv_throttle {s : State K} (h : Inv s) (key : K) : Inv (s.throttle key) := by
  have hentry := inv_entry (inv_ready h) key
  have hrecorded : ∀ t key', (s.throttle key).recorded t key' = (s.ready.entry key).1.recorded t key' := by
    intro t key'
    unfold State.recorded State.throttle
    dsimp only
    cases he : (s.ready.entry key).1.entries key' with
    | none => rfl
    | some e =>
      by_cases heq : e = (s.ready.entry key).2
      · subst heq
        simp only [Function.update_self]
        cases t <;> rfl
      · simp only [Function.update_of_ne heq]
  exact
    { made := hentry.made
      apart := hentry.apart
      holders := hentry.holders
      recorded := fun t key' => (hrecorded t key').trans (hentry.recorded t key')
      most := fun t key' => hrecorded t key' ▸ hentry.most t key'
      closed := hentry.closed
      current := hentry.current
      closed_once := hentry.closed_once
      woken := hentry.woken }

theorem inv_step {s : State K} (h : Inv s) (a : Act K) : Inv (step s a) := by
  cases a with
  | take key background => exact inv_take h key background
  | release i => exact inv_release h i
  | throttle key => exact inv_throttle h key
  | pass time => exact ⟨h.made, h.apart, h.holders, h.recorded, h.most, h.closed, h.current, h.closed_once, h.woken⟩

theorem inv_run (acts : List (Act K)) : Inv (run step init acts) := run_invariant (P := Inv) (fun _ a h => inv_step h a) inv_init acts

/-! ## A slowed key -/

def Act.time : Act K → Nat
  | .pass time => time
  | _ => 0

/-- The time that passes in a run. -/
def elapsed (acts : List (Act K)) : Nat := (acts.map Act.time).sum

omit [DecidableEq K] in
theorem now_ready (s : State K) : s.ready.now = s.now := by
  unfold State.ready
  split <;> rfl

theorem now_entry (s : State K) (key : K) : (s.entry key).1.now = s.now := by
  unfold State.entry
  split <;> rfl

theorem now_step (s : State K) (a : Act K) : (step s a).now = s.now + a.time := by
  cases a with
  | take key background =>
    unfold step State.take
    dsimp only
    split
    · exact (now_entry _ _).trans (now_ready s)
    · exact (now_entry _ _).trans (now_ready s)
  | release i =>
    cases hlets : s.lets i with
    | false => exact congrArg State.now (release_of_not_lets hlets)
    | true =>
      obtain ⟨r, _, _, hrelease⟩ := release_of_lets hlets
      refine (congrArg State.now hrelease).trans ?_
      change (State.drop _ r).now = s.now
      unfold State.drop
      split <;> rfl
  | throttle key => exact (now_entry _ _).trans (now_ready s)
  | pass time => rfl

/-- The key is slowed until a time, and no throttle from now on ends before it. -/
structure Slowed (key : K) (time : Nat) (s : State K) : Prop where
  entry : ∃ e, s.entries key = some e ∧ time ≤ (s.heap e).slowUntil
  near : time ≤ s.now + slowFor

theorem slowed_entry {s : State K} (h : Inv s) {key : K} {time : Nat} (hslow : Slowed key time s) (key' : K) :
    Slowed key time (s.ready.entry key').1 := by
  obtain ⟨e, he, htime⟩ := hslow.entry
  have hready : s.ready.entries = s.entries ∧ s.ready.heap = s.heap := by
    unfold State.ready
    split <;> exact ⟨rfl, rfl⟩
  refine ⟨⟨e, ?_⟩, by rw [now_entry, now_ready]; exact hslow.near⟩
  rw [← hready.1] at he
  rw [← hready.2] at htime
  unfold State.entry
  split
  · exact ⟨he, htime⟩
  · rename_i hnone
    have hne : key ≠ key' := by
      rintro rfl
      rw [hnone] at he
      cases he
    have hmade : e ≠ s.ready.made := Nat.ne_of_lt ((inv_ready h).made _ _ he)
    exact ⟨(Function.update_of_ne hne _ _).trans he, by simpa only [Function.update_of_ne hmade] using htime⟩

theorem slowed_step {s : State K} (h : Inv s) {key : K} {time : Nat} (hslow : Slowed key time s) (hnow : s.now < time) (a : Act K) :
    Slowed key time (step s a) := by
  cases a with
  | take key' background =>
    have hentry := slowed_entry h hslow key'
    unfold step State.take
    dsimp only
    split
    · exact hentry
    · obtain ⟨e, he, htime⟩ := hentry.entry
      refine ⟨⟨e, he, ?_⟩, hentry.near⟩
      by_cases heq : e = (s.ready.entry key').2
      · subst heq
        simpa only [State.enter, Function.update_self] using htime
      · simpa only [State.enter, Function.update_of_ne heq] using htime
  | release i =>
    cases hlets : s.lets i with
    | false =>
      have hstep : step s (.release i) = s := release_of_not_lets hlets
      exact hstep.symm ▸ hslow
    | true =>
      obtain ⟨r, hr, hreleased, hrelease⟩ := release_of_lets hlets
      obtain ⟨e, he, htime⟩ := hslow.entry
      have hheap : ∀ e, (((s.mark i r).letGo r).heap e).slowUntil = (s.heap e).slowUntil := by
        intro e
        by_cases heq : e = r.entry
        · subst heq
          simp only [State.letGo, State.mark, Function.update_self]
        · simp only [State.letGo, State.mark, Function.update_of_ne heq]
      refine (show step s (.release i) = _ from hrelease).symm ▸ ⟨⟨e, ?_⟩, ?_⟩
      · change (((s.mark i r).letGo r).drop r).entries key = some e ∧ time ≤ ((((s.mark i r).letGo r).drop r).heap e).slowUntil
        unfold State.drop
        split
        · rename_i hidle
          -- an entry that slows its key stays
          have hne : key ≠ r.key := by
            rintro rfl
            obtain rfl := Option.some.inj ((h.holders r (List.mem_of_getElem? hr) hreleased).symm.trans he)
            have hslow' := hidle.2
            rw [State.slow, hheap, decide_eq_false_iff_not] at hslow'
            exact hslow' (Nat.lt_of_lt_of_le hnow htime)
          exact ⟨(Function.update_of_ne hne _ _).trans he, (hheap e).symm ▸ htime⟩
        · exact ⟨he, (hheap e).symm ▸ htime⟩
      · change time ≤ (((s.mark i r).letGo r).drop r).now + slowFor
        unfold State.drop
        split <;> exact hslow.near
  | throttle key' =>
    have hentry := slowed_entry h hslow key'
    obtain ⟨e, he, htime⟩ := hentry.entry
    refine ⟨⟨e, he, ?_⟩, hentry.near⟩
    unfold step State.throttle
    dsimp only
    by_cases heq : e = (s.ready.entry key').2
    · subst heq
      rw [Function.update_self]
      exact hentry.near
    · rw [Function.update_of_ne heq]
      exact htime
  | pass time' => exact ⟨hslow.entry, Nat.le_trans hslow.near (Nat.add_le_add_right (Nat.le_add_right _ _) _)⟩

theorem slowed_run {key : K} {time : Nat} : ∀ {s : State K} (acts : List (Act K)), Inv s → Slowed key time s →
    s.now + elapsed acts < time → Slowed key time (run step s acts) ∧ (run step s acts).now < time
  | _, [], _, hslow, hnow => ⟨hslow, hnow⟩
  | s, a :: rest, h, hslow, hnow => by
    have htime : s.now + (a.time + elapsed rest) < time := hnow
    refine slowed_run rest (inv_step h a) (slowed_step h hslow (by omega) a) ?_
    rw [now_step]
    omega

theorem slowed_throttle (s : State K) (key : K) : Slowed key (s.now + slowFor) (s.throttle key) := by
  have hnow : (s.ready.entry key).1.now = s.now := (now_entry _ _).trans (now_ready s)
  have hnear : s.now + slowFor ≤ (s.ready.entry key).1.now + slowFor := Nat.le_of_eq (congrArg (· + slowFor) hnow.symm)
  refine ⟨⟨_, entry_entries _ _, ?_⟩, hnear⟩
  unfold State.throttle
  dsimp only
  rw [Function.update_self]
  exact hnear

/-- A slowed key that is held takes nobody. -/
theorem take_slowed {s : State K} (h : Inv s) {key : K} {time : Nat} (hslow : Slowed key time s) (hnow : s.now < time)
    (hheld : 0 < s.held .active key) (background : Bool) : ∃ c, (s.take key background).2 = .refused c := by
  have hready : Inv (s.ready.entry key).1 := inv_entry (inv_ready h) key
  obtain ⟨e, he, htime⟩ := (slowed_entry h hslow key).entry
  have heq : (s.ready.entry key).2 = e := Option.some.inj ((entry_entries _ _).symm.trans he)
  have hlimit : (s.ready.entry key).1.limit e = 1 := by
    rw [State.limit, if_pos]
    rw [State.slow, decide_eq_true_iff, now_entry, now_ready]
    exact Nat.lt_of_lt_of_le hnow htime
  have hholds : (s.ready.entry key).1.held .active key = s.held .active key := by
    unfold State.held State.entry State.ready
    split <;> split <;> rfl
  have hactive : 1 ≤ ((s.ready.entry key).1.heap e).active := by
    have hrecorded := hready.recorded .active key
    rw [hholds, State.recorded, he] at hrecorded
    have hfield : ((s.ready.entry key).1.heap e).active = (s.held .active key : Int) := hrecorded
    omega
  unfold State.take
  dsimp only
  rw [heq, if_pos]
  · exact ⟨_, rfl⟩
  · rw [State.full, Bool.or_eq_true]
    exact .inl (decide_eq_true (hlimit.symm ▸ hactive))

/-! ## Those who wait -/

/-- A step that is not the first call of a release function. -/
def quiet (s : State K) : Act K → Prop
  | .release i => s.lets i = false
  | _ => True

theorem changed_take (s : State K) (key : K) (background : Bool) : (s.take key background).1.changed = s.ready.changed := by
  unfold State.take
  dsimp only
  split <;> exact changed_entry _ _

omit [DecidableEq K] in
theorem ready_of_changed {s : State K} {c : Nat} (h : s.changed = some c) : s.ready.changed = some c := by
  unfold State.ready
  rw [h]
  exact h

theorem changed_step {s : State K} {c : Nat} (h : s.changed = some c) {a : Act K} (ha : quiet s a) :
    (step s a).changed = some c := by
  cases a with
  | take key background => exact (changed_take s key background).trans (ready_of_changed h)
  | release i => exact (congrArg State.changed (release_of_not_lets ha)).trans h
  | throttle key => exact (changed_entry _ _).trans (ready_of_changed h)
  | pass time => exact h

theorem refused_changed {s : State K} {key : K} {background : Bool} {c : Option Nat}
    (h : (s.take key background).2 = .refused c) : c = (s.take key background).1.changed ∧ c.isSome = true := by
  unfold State.take at h ⊢
  dsimp only at h ⊢
  split at h
  · rename_i hfull
    rw [if_pos hfull]
    obtain rfl := Taken.refused.inj h
    refine ⟨rfl, ?_⟩
    rw [changed_entry]
    exact ready_changed s
  · cases h

theorem closed_release {s : State K} {i c : Nat} (hlets : s.lets i = true) (hc : s.changed = some c) : c ∈ (s.release i).closed := by
  obtain ⟨r, _, _, hrelease⟩ := release_of_lets hlets
  have hchanged : (((s.mark i r).letGo r).drop r).changed = some c := by
    unfold State.drop
    split <;> exact hc
  rw [hrelease, State.wake, hchanged]
  exact List.mem_append_right _ (List.mem_singleton.mpr rfl)

/-! ## Release functions that were called -/

/-- A place whose release function has run. -/
def Let (i : Nat) (s : State K) : Prop := ∃ r, s.holds[i]? = some r ∧ r.released = true

theorem release_of_let {s : State K} {i : Nat} (h : Let i s) : s.release i = s := by
  obtain ⟨r, hr, hreleased⟩ := h
  refine release_of_not_lets ?_
  rw [State.lets, hr]
  simp [hreleased]

theorem holds_entry (s : State K) (key : K) : (s.ready.entry key).1.holds = s.holds := by
  unfold State.entry State.ready
  split <;> split <;> rfl

/-- Who is admitted has the next release function. -/
theorem holds_take (s : State K) (key : K) (background : Bool) :
    (∃ e, (s.take key background).2 = .admitted s.holds.length ∧
      (s.take key background).1.holds = s.holds ++ [⟨key, e, background, false⟩]) ∨
    ∃ c, (s.take key background).2 = .refused c ∧ (s.take key background).1.holds = s.holds := by
  have hholds := holds_entry s key
  unfold State.take
  dsimp only
  split
  · exact .inr ⟨_, rfl, hholds⟩
  · refine .inl ⟨(s.ready.entry key).2, by rw [hholds], ?_⟩
    rw [← hholds]
    rfl

theorem holds_release {s : State K} {i : Nat} (h : s.lets i = true) :
    ∃ r, s.holds[i]? = some r ∧ (s.release i).holds = s.holds.set i { r with released := true } := by
  obtain ⟨r, hr, _, hrelease⟩ := release_of_lets h
  refine ⟨r, hr, (congrArg State.holds hrelease).trans ?_⟩
  change (((s.mark i r).letGo r).drop r).holds = _
  unfold State.drop
  split <;> rfl

theorem let_release (s : State K) {i : Nat} (h : i < s.holds.length) : Let i (s.release i) := by
  cases hlets : s.lets i with
  | false =>
    rw [release_of_not_lets hlets]
    refine ⟨_, List.getElem?_eq_getElem h, ?_⟩
    rw [State.lets, List.getElem?_eq_getElem h] at hlets
    simpa using hlets
  | true =>
    obtain ⟨r, _, hholds⟩ := holds_release hlets
    refine ⟨{ r with released := true }, ?_, rfl⟩
    rw [hholds, List.getElem?_set_self h]

/-- A step adds release functions at the end, or marks one. -/
theorem getElem?_step {s : State K} {i : Nat} {r : Hold K} (hr : s.holds[i]? = some r) (a : Act K) :
    (step s a).holds[i]? = some r ∨ a = .release i ∧ (step s a).holds[i]? = some { r with released := true } := by
  have hlt := (List.getElem?_eq_some_iff.mp hr).1
  cases a with
  | take key background =>
    refine .inl ?_
    rcases holds_take s key background with ⟨e, _, hholds⟩ | ⟨c, _, hholds⟩
    · exact (congrArg (·[i]?) hholds).trans ((List.getElem?_append_left hlt).trans hr)
    · exact (congrArg (·[i]?) hholds).trans hr
  | release j =>
    cases hlets : s.lets j with
    | false => exact .inl ((congrArg (fun t : State K => t.holds[i]?) (release_of_not_lets hlets)).trans hr)
    | true =>
      obtain ⟨r', hr', hholds⟩ := holds_release hlets
      by_cases hij : j = i
      · subst hij
        obtain rfl := Option.some.inj (hr'.symm.trans hr)
        exact .inr ⟨rfl, (congrArg (·[j]?) hholds).trans (List.getElem?_set_self hlt)⟩
      · exact .inl ((congrArg (·[i]?) hholds).trans ((List.getElem?_set_ne hij).trans hr))
  | throttle key => exact .inl ((congrArg (·[i]?) (holds_entry s key)).trans hr)
  | pass time => exact .inl hr

theorem let_step {s : State K} {i : Nat} (h : Let i s) (a : Act K) : Let i (step s a) := by
  obtain ⟨r, hr, hreleased⟩ := h
  rcases getElem?_step hr a with hr | ⟨_, hr⟩
  · exact ⟨r, hr, hreleased⟩
  · exact ⟨_, hr, rfl⟩

/-- A release function that was not called stays so until it is. -/
theorem lets_step {s : State K} {i : Nat} (h : s.lets i = true) {a : Act K} (ha : a ≠ .release i) : (step s a).lets i = true := by
  obtain ⟨r, hr, _⟩ := release_of_lets h
  rcases getElem?_step hr a with hr' | ⟨heq, _⟩
  · rw [State.lets, hr'] at *
    rw [hr] at h
    exact h
  · exact absurd heq ha

/-! ## Every run -/

structure Kept (s : State K) : Prop where
  active : ∀ key, s.recorded .active key = s.held .active key
  background : ∀ key, s.recorded .background key = s.held .background key
  active_le : ∀ key, s.recorded .active key ≤ 4
  background_le : ∀ key, s.recorded .background key ≤ 2
  /-- The entry of an outstanding holder is the one its key has. -/
  holders : ∀ h ∈ s.holds, h.released = false → s.entries h.key = some h.entry
  /-- Until its time is over, a throttled key keeps its entry, and takes nobody while it is held. -/
  slowed : ∀ key background after, elapsed after < slowFor →
    (∃ e, (run step (s.throttle key) after).entries key = some e ∧
      s.now + slowFor ≤ ((run step (s.throttle key) after).heap e).slowUntil) ∧
    (0 < (run step (s.throttle key) after).held .active key →
      ∃ c, ((run step (s.throttle key) after).take key background).2 = .refused c)
  once : ∀ i after, i < s.holds.length → (run step (s.release i) after).release i = run step (s.release i) after
  /-- A channel to wait on is closed by the next release, and by nothing before it. -/
  woken : ∀ key background c after, (s.take key background).2 = .refused c →
    Along step quiet (s.take key background).1 after → ∃ channel, c = some channel ∧
      channel ∉ (run step (s.take key background).1 after).closed ∧
      ∀ i, (run step (s.take key background).1 after).lets i = true →
        channel ∈ ((run step (s.take key background).1 after).release i).closed
  closed_once : s.closed.Nodup

theorem Inv.kept {s : State K} (h : Inv s) : Kept s where
  active := h.recorded .active
  background := h.recorded .background
  active_le := h.most .active
  background_le := h.most .background
  holders := h.holders
  slowed := by
    intro key background after hafter
    have hnow : (s.throttle key).now = s.now := now_step s (.throttle key)
    have hrun := slowed_run after (inv_throttle h key) (slowed_throttle s key) (by rw [hnow]; omega)
    have hinv := run_invariant (P := Inv) (fun _ a h => inv_step h a) (inv_throttle h key) after
    exact ⟨hrun.1.entry, fun hheld => take_slowed hinv hrun.1 hrun.2 hheld background⟩
  once := by
    intro i after hi
    exact release_of_let (run_invariant (P := Let i) (fun _ a h => let_step h a) (let_release s hi) after)
  woken := by
    intro key background c after hrefused hquiet
    obtain ⟨hc, hsome⟩ := refused_changed hrefused
    obtain ⟨channel, rfl⟩ := Option.isSome_iff_exists.mp hsome
    have hrun := run_invariant_along (P := fun t => Inv t ∧ t.changed = some channel)
      (fun _ a ht ha => ⟨inv_step ht.1 a, changed_step ht.2 ha⟩) ⟨inv_take h key background, hc.symm⟩ hquiet
    exact ⟨channel, rfl, (hrun.1.current channel hrun.2).2, fun i hlets => closed_release hlets hrun.2⟩
  closed_once := h.closed_once

/-- Whatever is taken, let go and throttled in whatever order, the counts are those of the holders. -/
theorem capacity_kept (acts : List (Act K)) : Kept (run step init acts) := (inv_run acts).kept

end Desk.Capacity
