import Desk.Signing.History
import Mathlib.Data.List.GetD
import Mathlib.Data.List.Induction

/-!
# The list and the current trail

The list of every history is accepted, it agrees with the sidecar, and the keys
of the trail are the key it began with and those rotated to on it; no other
rotations of the trail agree with the list.
-/

namespace Desk.Signing

/-! ## Readings -/

theorem splitOn_lines {lines : List (List UInt8)} (h : ∀ l ∈ lines, newline ∉ l) :
    (lines.flatMap (· ++ [newline])).splitOn newline = lines ++ [[]] := by
  induction lines with
  | nil => rfl
  | cons l lines ih =>
    rw [List.flatMap_cons, List.append_assoc, List.singleton_append,
      List.splitOn_append_cons_self_of_not_mem (h l (List.mem_cons_self ..)), ih fun x hx => h x (List.mem_cons_of_mem _ hx)]
    rfl

/-- What is read of these lines. -/
def reading (lines : List (List UInt8)) : SidecarReading := lines.foldl SidecarReading.read {}

theorem readSidecarLines_lines {lines : List (List UInt8)} (h : ∀ l ∈ lines, newline ∉ l) :
    readSidecarLines (lines.flatMap (· ++ [newline])) = reading lines := by
  rw [readSidecarLines, splitOn_lines h, List.dropLast_concat]
  rfl

/-- The rotation a line is, and the trail it names. -/
def rotationOf (line : List UInt8) : Option SidecarRotation :=
  match readSidecarLine line with
  | some (.keyRotation rotation _) => some rotation
  | _ => none

def trailOf (line : List UInt8) : Option String :=
  match readSidecarLine line with
  | some (.keyRotation _ trail) => some trail
  | some (.recordSignature _ trail) => some trail
  | none => none

theorem noteTrail_rotations (r : SidecarReading) (trail : String) : (r.noteTrail trail).rotations = r.rotations := by
  unfold SidecarReading.noteTrail
  split_ifs <;> rfl

theorem read_rotations (r : SidecarReading) (line : List UInt8) :
    (r.read line).rotations = r.rotations ++ (rotationOf line).toList := by
  unfold SidecarReading.read rotationOf
  cases readSidecarLine line with
  | none => simp
  | some l => cases l <;> simp [SidecarReading.take, noteTrail_rotations]

theorem reading_concat (lines : List (List UInt8)) (line : List UInt8) :
    reading (lines ++ [line]) = (reading lines).read line := by
  simp [reading]

theorem reading_rotations (lines : List (List UInt8)) : (reading lines).rotations = lines.filterMap rotationOf := by
  induction lines using List.reverseRecOn with
  | nil => rfl
  | append_singleton lines line ih =>
    rw [reading_concat, read_rotations, ih, List.filterMap_append]
    cases h : rotationOf line <;> simp [h]

theorem sidecarForm_ok {members : List (String × Json)} {name v : String} {form : String → Bool}
    (h : sidecarForm members name form = some v) : form v = true := by
  rw [sidecarForm, Option.filter_eq_some_iff] at h
  exact h.2

theorem ne_empty_of_keyIDForm {s : String} (h : keyIDForm s = true) : s ≠ "" := by
  rintro rfl
  exact absurd h (by decide)

theorem sidecarInteger_lt {members : List (String × Json)} {name : String} {n : Nat}
    (h : sidecarInteger members name = some n) : n < sidecarIntegerLimit := by
  unfold sidecarInteger at h
  split at h
  · split_ifs at h
    split at h
    · split_ifs at h with hlt
      obtain rfl := Option.some.inj h
      omega
    · cases h
  · cases h

/-- The lines Desk reads. -/
theorem readSidecarLine_ok {line : List UInt8} {l : SidecarLine} (h : readSidecarLine line = some l) :
    ∃ keyID trail, keyIDForm keyID = true ∧ keyIDForm trail = true ∧
      (l = .recordSignature keyID trail ∨
        ∃ (at_ : Nat) (next : String), at_ < sidecarIntegerLimit ∧ publicKeyForm next = true ∧
          l = .keyRotation { at_, keyID, next } trail) := by
  unfold readSidecarLine at h
  split_ifs at h
  obtain ⟨members, -, h⟩ := Option.bind_eq_some_iff.mp h
  split_ifs at h
  obtain ⟨_, -, h⟩ := Option.bind_eq_some_iff.mp h
  obtain ⟨kind, -, h⟩ := Option.bind_eq_some_iff.mp h
  obtain ⟨keyID, hk, h⟩ := Option.bind_eq_some_iff.mp h
  obtain ⟨trail, ht, h⟩ := Option.bind_eq_some_iff.mp h
  obtain ⟨_, -, h⟩ := Option.bind_eq_some_iff.mp h
  refine ⟨keyID, trail, sidecarForm_ok hk, sidecarForm_ok ht, ?_⟩
  by_cases hr : kind = "record-signature"
  · rw [if_pos hr] at h
    obtain ⟨_, -, h⟩ := Option.bind_eq_some_iff.mp h
    obtain ⟨_, -, h⟩ := Option.bind_eq_some_iff.mp h
    exact .inl (Option.some.inj h).symm
  · rw [if_neg hr] at h
    by_cases hk' : kind = "key-rotation"
    · rw [if_pos hk'] at h
      obtain ⟨at_, ha, h⟩ := Option.bind_eq_some_iff.mp h
      obtain ⟨next, hn, h⟩ := Option.bind_eq_some_iff.mp h
      exact .inr ⟨at_, next, sidecarInteger_lt ha, sidecarForm_ok hn, (Option.some.inj h).symm⟩
    · rw [if_neg hk'] at h
      cases h

/-- A line that names a trail names one of its form. -/
theorem trailOf_form {line : List UInt8} {t : String} (h : trailOf line = some t) : keyIDForm t = true := by
  unfold trailOf at h
  cases hl : readSidecarLine line with
  | none =>
    rw [hl] at h
    cases h
  | some l =>
    obtain ⟨keyID, trail, -, ht, rfl | ⟨at_, next, -, -, rfl⟩⟩ := readSidecarLine_ok hl
    · rw [hl] at h
      exact (Option.some.inj h) ▸ ht
    · rw [hl] at h
      exact (Option.some.inj h) ▸ ht

theorem read_trail (r : SidecarReading) (line : List UInt8) :
    ((r.read line).trail, (r.read line).mixed) =
      match trailOf line with
      | none => (r.trail, r.mixed)
      | some t => ((r.noteTrail t).trail, (r.noteTrail t).mixed) := by
  unfold SidecarReading.read trailOf
  cases readSidecarLine line with
  | none => rfl
  | some l =>
    cases l
    all_goals
      simp only [SidecarReading.take, SidecarReading.noteTrail]
      split_ifs <;> rfl

/-- What a reading says of the trails its lines name. -/
inductive Trails (lines : List (List UInt8)) (r : SidecarReading) : Prop
  | none (names : ∀ l ∈ lines, trailOf l = none) (trail : r.trail = "") (mixed : r.mixed = false) : Trails lines r
  | one (t : String) (trail : r.trail = t) (mixed : r.mixed = false) (named : ∃ l ∈ lines, trailOf l = some t)
      (only : ∀ l ∈ lines, ∀ t', trailOf l = some t' → t' = t) : Trails lines r
  | mixed (mixed : r.mixed = true) (two : ∃ l ∈ lines, ∃ l' ∈ lines, ∃ t t', trailOf l = some t ∧ trailOf l' = some t' ∧
      t ≠ t') : Trails lines r

theorem reading_trails (lines : List (List UInt8)) : Trails lines (reading lines) := by
  induction lines using List.reverseRecOn with
  | nil => exact .none (by simp) rfl rfl
  | append_singleton lines line ih =>
    have hread := read_trail (reading lines) line
    rw [← reading_concat, Prod.ext_iff] at hread
    obtain ⟨htrail, hmixed⟩ := hread
    have hmem : ∀ {l}, l ∈ lines → l ∈ lines ++ [line] := fun h => List.mem_append_left _ h
    have hself : line ∈ lines ++ [line] := by simp
    cases ht : trailOf line with
    | none =>
      simp only [ht] at htrail hmixed
      cases ih with
      | none names trail mixed =>
        refine .none ?_ (htrail.trans trail) (hmixed.trans mixed)
        intro l hl
        obtain hl | hl := List.mem_append.mp hl
        · exact names l hl
        · rwa [List.mem_singleton.mp hl]
      | one t trail mixed named only =>
        obtain ⟨l, hl, hlt⟩ := named
        refine .one t (htrail.trans trail) (hmixed.trans mixed) ⟨l, hmem hl, hlt⟩ ?_
        intro x hx t' hx'
        obtain hx | hx := List.mem_append.mp hx
        · exact only x hx t' hx'
        · rw [List.mem_singleton.mp hx, ht] at hx'
          cases hx'
      | mixed mixed two =>
        obtain ⟨l, hl, l', hl', rest⟩ := two
        exact .mixed (hmixed.trans mixed) ⟨l, hmem hl, l', hmem hl', rest⟩
    | some t =>
      simp only [ht] at htrail hmixed
      cases ih with
      | none names trail mixed =>
        refine .one t ?_ ?_ ⟨line, hself, ht⟩ ?_
        · rw [htrail, SidecarReading.noteTrail, mixed, trail]
          rfl
        · rw [hmixed, SidecarReading.noteTrail, mixed, trail]
          rfl
        · intro l hl t' hl'
          obtain hl | hl := List.mem_append.mp hl
          · rw [names l hl] at hl'
            cases hl'
          · rw [List.mem_singleton.mp hl, ht] at hl'
            exact (Option.some.inj hl').symm
      | one t₀ trail mixed named only =>
        obtain ⟨l, hl, hlt⟩ := named
        have hne : t₀ ≠ "" := ne_empty_of_keyIDForm (trailOf_form hlt)
        have hr : (reading lines).mixed ≠ true := by simp [mixed]
        by_cases heq : t₀ = t
        · subst heq
          refine .one t₀ ?_ ?_ ⟨l, hmem hl, hlt⟩ ?_
          · rw [htrail, SidecarReading.noteTrail, if_neg hr, trail, if_neg hne, if_neg (by simp)]
            exact trail
          · rw [hmixed, SidecarReading.noteTrail, if_neg hr, trail, if_neg hne, if_neg (by simp)]
            exact mixed
          · intro x hx t' hx'
            obtain hx | hx := List.mem_append.mp hx
            · exact only x hx t' hx'
            · rw [List.mem_singleton.mp hx, ht] at hx'
              exact (Option.some.inj hx').symm
        · refine .mixed ?_ ⟨l, hmem hl, line, hself, t₀, t, hlt, ht, heq⟩
          rw [hmixed, SidecarReading.noteTrail, if_neg hr, trail, if_neg hne, if_pos heq]
      | mixed mixed two =>
        obtain ⟨l, hl, l', hl', rest⟩ := two
        refine .mixed ?_ ⟨l, hmem hl, l', hmem hl', rest⟩
        rw [hmixed, SidecarReading.noteTrail, if_pos mixed]
        exact mixed

/-! ## The list against a reading -/

/-- The rotations from each of these keys to the next. -/
def handovers : List DeskPublicKey → List SidecarRotation
  | before :: key :: rest => { at_ := key.at_, keyID := before.keyID, next := key.publicKey } :: handovers (key :: rest)
  | _ => []

theorem length_handovers : ∀ keys : List DeskPublicKey, (handovers keys).length = keys.length - 1
  | [] => rfl
  | [_] => rfl
  | _ :: key :: rest => by
    have ih := length_handovers (key :: rest)
    simp only [handovers, List.length_cons] at ih ⊢
    omega

theorem rotationProblem_none (keys : List DeskPublicKey) (first i : Nat) (rotation : SidecarRotation) :
    rotationProblem keys first i rotation = none ↔
      rotation = ⟨(keys.getD (first + i + 1) {}).at_, (keys.getD (first + i) {}).keyID,
        (keys.getD (first + i + 1) {}).publicKey⟩ := by
  unfold rotationProblem
  obtain ⟨at_, keyID, next⟩ := rotation
  generalize keys.getD (first + i + 1) {} = key
  generalize keys.getD (first + i) {} = before
  dsimp only
  split_ifs with h1 h2 h3
  · simp [h1]
  · simp [h2]
  · simp [h3]
  · push Not at h1 h2 h3
    simp [h1, h2, h3]

theorem rotationsProblem_none (keys : List DeskPublicKey) (first : Nat) (rotations : List SidecarRotation) :
    ∀ i, first + i + rotations.length + 1 = keys.length →
      (rotationsProblem keys first i rotations = none ↔ rotations = handovers (keys.drop (first + i))) := by
  induction rotations with
  | nil =>
    intro i hlen
    simp only [List.length_nil, Nat.add_zero] at hlen
    have : (handovers (keys.drop (first + i))).length = 0 := by
      rw [length_handovers, List.length_drop]
      omega
    simp [rotationsProblem, List.length_eq_zero_iff.mp this]
  | cons rotation rest ih =>
    intro i hlen
    rw [List.length_cons] at hlen
    have h1 : first + i < keys.length := by omega
    have h2 : first + i + 1 < keys.length := by omega
    have hdrop : keys.drop (first + i) = keys.getD (first + i) {} :: keys.getD (first + i + 1) {} ::
        keys.drop (first + i + 2) := by
      rw [List.drop_eq_getElem_cons h1, List.drop_eq_getElem_cons h2, List.getD_eq_getElem _ _ h1,
        List.getD_eq_getElem _ _ h2]
    have hdrop' : keys.drop (first + (i + 1)) = keys.getD (first + i + 1) {} :: keys.drop (first + i + 2) := by
      rw [← Nat.add_assoc, List.drop_eq_getElem_cons h2, List.getD_eq_getElem _ _ h2]
    have hrest := ih (i + 1) (by omega)
    rw [hdrop'] at hrest
    rw [hdrop, handovers, List.cons.injEq, ← rotationProblem_none, ← hrest, rotationsProblem]
    cases rotationProblem keys first i rotation <;> simp

/-- The list agrees with a sidecar exactly when the sidecar's rotations lead from the trail's first key to the last. -/
theorem checkKeysAgainst_ok (keys : List DeskPublicKey) (current : DeskPublicKey) (r : SidecarReading) :
    checkKeysAgainst keys current (some r) = .ok () ↔
      (∃ last, keys.getLast? = some last ∧ last.publicKey = current.publicKey ∧ last.keyID = current.keyID) ∧
      r.mixed = false ∧ trailFirst keys (some r) < keys.length ∧
      r.rotations = handovers (keys.drop (trailFirst keys (some r))) := by
  unfold checkKeysAgainst
  cases hlast : keys.getLast? with
  | none => simp
  | some last =>
    have hne : keys ≠ [] := by
      rintro rfl
      cases hlast
    have hpos := List.length_pos_iff.mpr hne
    dsimp only
    split_ifs with h1 h2 h3
    · constructor
      · intro h
        cases h
      · rintro ⟨⟨last', hl, hp, hk⟩, -⟩
        obtain rfl := Option.some.inj hl
        obtain h | h := h1
        · exact absurd hp h
        · exact absurd hk h
    · simp [h2]
    · constructor
      · intro h
        cases h
      · rintro ⟨-, -, hlt, hr⟩
        refine absurd ?_ h3
        rw [hr, length_handovers, List.length_drop]
        omega
    · push Not at h1 h3
      have hlt : trailFirst keys (some r) < keys.length := by omega
      have hspec := rotationsProblem_none keys (trailFirst keys (some r)) r.rotations 0 (by omega)
      rw [Nat.add_zero] at hspec
      rw [← hspec]
      cases rotationsProblem keys (trailFirst keys (some r)) 0 r.rotations <;> simp [h1, h2, hlt]

/-! ## The trail's first key -/

theorem foldl_last (p : Nat → Prop) [DecidablePred p] (n d : Nat) :
    (∀ m, m < n → p m → (∀ i, m < i → i < n → ¬p i) →
      (List.range n).foldl (fun first i => if p i then i else first) d = m) ∧
    ((∀ i, i < n → ¬p i) → (List.range n).foldl (fun first i => if p i then i else first) d = d) := by
  induction n with
  | zero => exact ⟨fun m h => absurd h (Nat.not_lt_zero m), fun _ => rfl⟩
  | succ n ih =>
    simp only [List.range_succ, List.foldl_append, List.foldl_cons, List.foldl_nil]
    constructor
    · intro m hm hp hlast
      by_cases hn : m = n
      · subst hn
        rw [if_pos hp]
      · rw [if_neg (hlast n (by omega) (Nat.lt_succ_self n))]
        exact ih.1 m (by omega) hp fun i h1 h2 => hlast i h1 (by omega)
    · intro h
      rw [if_neg (h n (Nat.lt_succ_self n))]
      exact ih.2 fun i hi => h i (by omega)

/-- How a list splits at a trail: the keys before its first, and those rotated to on it. -/
structure SplitsAt (keys : List DeskPublicKey) (trail : String) (before : List DeskPublicKey) (opening : DeskPublicKey)
    (turned : List DeskPublicKey) : Prop where
  split : keys = before ++ opening :: turned
  other : before ≠ [] → opening.trail ≠ "" ∧ opening.trail ≠ trail
  on : ∀ k ∈ turned, k.trail = trail

theorem lastOther_splits {keys before turned : List DeskPublicKey} {trail : String} {opening : DeskPublicKey}
    (s : SplitsAt keys trail before opening turned) : lastOther keys trail = before.length := by
  have hafter : ∀ i, before.length < i → i < keys.length → (keys.getD i {}).trail = trail := by
    intro i hlt hi
    rw [List.getD_eq_getElem _ _ hi]
    apply s.on
    have hget : keys[i]? = turned[i - before.length - 1]? := by
      rw [s.split, List.getElem?_append_right (by omega)]
      obtain ⟨j, hj⟩ : ∃ j, i - before.length = j + 1 := ⟨i - before.length - 1, by omega⟩
      rw [hj, List.getElem?_cons_succ]
      rfl
    exact List.mem_of_getElem? (hget.symm.trans (List.getElem?_eq_getElem hi))
  have hat : before.length < keys.length := by
    rw [s.split, List.length_append, List.length_cons]
    omega
  have hopening : keys.getD before.length {} = opening := by
    rw [s.split]
    simp
  have hfold := foldl_last (fun i => 1 ≤ i ∧ (keys.getD i {}).trail ≠ "" ∧ (keys.getD i {}).trail ≠ trail) keys.length 0
  by_cases hb : before = []
  · have hnone := hfold.2 fun i hi h => by
      rcases Nat.eq_zero_or_pos i with h0 | h0
      · omega
      · exact h.2.2 (hafter i (by simpa [hb] using h0) hi)
    rw [lastOther, hnone, hb]
    rfl
  · obtain ⟨h1, h2⟩ := s.other hb
    refine hfold.1 before.length hat ?_ fun i hlt hi h => h.2.2 (hafter i hlt hi)
    rw [hopening]
    exact ⟨List.length_pos_iff.mpr hb, h1, h2⟩

theorem SplitsAt.length_lt {keys before turned : List DeskPublicKey} {trail : String} {opening : DeskPublicKey}
    (s : SplitsAt keys trail before opening turned) : before.length < keys.length := by
  rw [s.split, List.length_append, List.length_cons]
  omega

/-- Where every line names the trail, or there is none yet, the trail's first key is the one it began with. -/
theorem trailFirst_splits {keys before turned : List DeskPublicKey} {trail : String} {opening : DeskPublicKey}
    (s : SplitsAt keys trail before opening turned) {r : SidecarReading} (hm : r.mixed = false)
    (hr : r.trail = trail ∧ trail ≠ "" ∨ r.trail = "" ∧ turned = []) : trailFirst keys (some r) = before.length := by
  have hlt := s.length_lt
  unfold trailFirst
  dsimp only
  by_cases hlen : keys.length < 2
  · rw [if_pos hlen]
    omega
  · rw [if_neg hlen]
    obtain ⟨ht, hne⟩ | ⟨ht, hnone⟩ := hr
    · have hone : r.oneTrail = some trail := by
        rw [SidecarReading.oneTrail, if_pos ⟨ht ▸ hne, hm⟩, ht]
      rw [hone]
      exact lastOther_splits s
    · have hone : r.oneTrail = none := by
        rw [SidecarReading.oneTrail, if_neg (by simp [ht])]
      have hsplit := s.split
      rw [hnone] at hsplit
      have hbefore : before ≠ [] := by
        rintro rfl
        rw [hsplit] at hlen
        exact hlen (by simp)
      have hkeys : keys.length - 1 = before.length := by
        rw [hsplit]
        simp
      have hopening : keys.getD before.length {} = opening := by
        rw [hsplit]
        simp
      rw [hone]
      dsimp only
      rw [hkeys, hopening, if_pos ⟨hm, (s.other hbefore).1⟩]

/-! ## Histories -/

theorem Accepted.head {keys : List DeskPublicKey} (a : Accepted keys) :
    ∀ k ∈ keys.head?, k.at_ = 0 ∧ k.trail = "" := by
  induction a with
  | nil => simp
  | @concat keys key before admits ih =>
    cases keys with
    | nil =>
      have htakes := admits.takes
      simp only [takesOver, List.getLast?_nil, Bool.and_eq_true, decide_eq_true_eq, beq_iff_eq] at htakes
      intro k hk
      obtain rfl : key = k := by simpa using hk
      exact htakes
    | cons k keys => exact ih

theorem handovers_concat (keys : List DeskPublicKey) (last key : DeskPublicKey) :
    handovers (keys ++ [last] ++ [key]) = handovers (keys ++ [last]) ++ [⟨key.at_, last.keyID, key.publicKey⟩] := by
  induction keys with
  | nil => rfl
  | cons k keys ih =>
    cases keys with
    | nil => rfl
    | cons k' keys => exact congrArg _ ih

/-- What every history keeps. -/
structure Intact (h : History) : Prop where
  accepted : Accepted h.keys
  most : h.keys.length ≤ maxDeskKeys
  clean : ∀ l ∈ h.lines, newline ∉ l
  splits : ∃ before, SplitsAt h.keys h.trail before h.opening h.turned ∧ (before = [] → h.opening.at_ = 0)
  older : ∀ k ∈ h.keys, k.trail = "" ∨ k.trail = h.trail ∨ k.trail ∈ h.past
  recorded : ∀ k ∈ h.keys.tail, k.trail ≠ ""
  later : ∀ k ∈ h.turned, 1 ≤ k.at_
  form : keyIDForm h.trail = true
  named : ∀ l ∈ h.lines, trailOf l = some h.trail
  rotations : h.lines.filterMap rotationOf = handovers (h.opening :: h.turned)

theorem Intact.current {h : History} (i : Intact h) : (h.opening :: h.turned).getLast? = some h.current := by
  obtain ⟨before, s, -⟩ := i.splits
  rw [History.current, s.split, List.getLast?_append, List.getLast?_cons]
  rfl

theorem Intact.keys_last {h : History} (i : Intact h) : h.keys.getLast? = some h.current := by
  obtain ⟨before, s, -⟩ := i.splits
  have hcurrent := i.current
  rw [s.split, List.getLast?_append, hcurrent]
  rfl

/-- A key a list may begin with. -/
structure First (key : DeskPublicKey) : Prop where
  check : key.check = none
  at_ : key.at_ = 0
  trail : key.trail = ""

theorem First.accepted {key : DeskPublicKey} (f : First key) : Accepted [key] := by
  refine @Accepted.concat [] key .nil ⟨?_, f.check, ?_, by simp⟩
  · rw [Held, f.at_]
    decide
  · simp [takesOver, f.at_, f.trail]

theorem Intact.start {key : DeskPublicKey} {trail : String} (f : First key) (ht : keyIDForm trail = true) :
    Intact (.start key trail) where
  accepted := f.accepted
  most := by
    change 1 ≤ maxDeskKeys
    decide
  clean := by simp [History.start]
  splits := ⟨[], ⟨rfl, by simp, by simp [History.start]⟩, fun _ => f.at_⟩
  older k hk := .inl (by rw [List.mem_singleton.mp hk, f.trail])
  recorded := by simp [History.start]
  later := by simp [History.start]
  form := ht
  named := by simp [History.start]
  rotations := rfl

theorem Intact.sign {h : History} (i : Intact h) {line : List UInt8} (hline : newline ∉ line)
    (hread : readSidecarLine line = some (.recordSignature h.current.keyID h.trail)) :
    Intact { h with lines := h.lines ++ [line] } :=
  { i with
    clean := by
      intro l hl
      obtain hl | hl := List.mem_append.mp hl
      · exact i.clean l hl
      · rwa [List.mem_singleton.mp hl]
    named := by
      intro l hl
      obtain hl | hl := List.mem_append.mp hl
      · exact i.named l hl
      · rw [List.mem_singleton.mp hl, trailOf, hread]
    rotations := by
      have hnone : rotationOf line = none := by rw [rotationOf, hread]
      rw [List.filterMap_append, i.rotations]
      simp [hnone] }

theorem Intact.takes {h : History} (i : Intact h) {key : DeskPublicKey} (ht : key.trail = h.trail) (hone : 1 ≤ key.at_)
    (hsince : h.recordSince key.at_ = true) : takesOver h.keys key = true := by
  obtain ⟨before, s, -⟩ := i.splits
  have hform := ne_empty_of_keyIDForm i.form
  rw [takesOver, i.keys_last]
  simp only [Bool.and_eq_true, decide_eq_true_eq, Bool.not_eq_true', Bool.and_eq_false_iff, beq_eq_false_iff_ne,
    decide_eq_false_iff_not]
  refine ⟨hone, ?_⟩
  have hcurrent := i.current
  rw [List.getLast?_cons] at hcurrent
  cases hl : h.turned.getLast? with
  | none =>
    rw [hl] at hcurrent
    have hcur : h.opening = h.current := Option.some.inj hcurrent
    refine .inl ?_
    rw [ht, ← hcur]
    by_cases hb : before = []
    · have hhead := i.accepted.head h.opening (by rw [s.split, hb]; rfl)
      rw [hhead.2]
      exact hform
    · exact (s.other hb).2.symm
  | some last =>
    rw [hl] at hcurrent
    have hcur : last = h.current := Option.some.inj hcurrent
    simp only [History.recordSince, hl, decide_eq_true_eq] at hsince
    rw [← hcur]
    exact .inr (Int.not_le.mpr hsince)

theorem Intact.rotate {h : History} (i : Intact h) {publicKey keyID : String} {at_ : Int} {line : List UInt8}
    (hcan : h.canRotate publicKey keyID at_ line = true) :
    Intact { h with
      keys := h.keys ++ [h.nextKey publicKey keyID at_], lines := h.lines ++ [line],
      turned := h.turned ++ [h.nextKey publicKey keyID at_] } := by
  simp only [History.canRotate, Bool.and_eq_true, decide_eq_true_eq, Bool.not_eq_true', beq_iff_eq,
    List.any_eq_false, Option.isNone_iff_eq_none] at hcan
  obtain ⟨⟨⟨⟨⟨hmost, hcheck⟩, hfresh⟩, hsince⟩, hclean⟩, hread⟩ := hcan
  obtain ⟨before, s, hat⟩ := i.splits
  have hone : 1 ≤ at_ := by
    unfold History.recordSince at hsince
    cases hl : h.turned.getLast? with
    | none => simpa [hl] using hsince
    | some last =>
      have := i.later last (List.mem_of_getLast? hl)
      simp only [hl, decide_eq_true_eq] at hsince
      omega
  have hlimit : at_ < 2 ^ 63 := by
    obtain ⟨keyID', trail', -, -, heq | ⟨n, next, hn, -, heq⟩⟩ := readSidecarLine_ok hread
    · cases heq
    · cases heq
      simp only [sidecarIntegerLimit] at hn
      omega
  have hadmits : Admits h.keys (h.nextKey publicKey keyID at_) := by
    refine ⟨⟨?_, hlimit⟩, hcheck, i.takes rfl hone hsince, ?_⟩
    · change -2 ^ 63 ≤ at_
      omega
    · intro k hk
      change k.publicKey ≠ publicKey
      simpa using hfresh k hk
  have hmem : ∀ {k}, k ∈ h.turned ++ [h.nextKey publicKey keyID at_] → k ∈ h.turned ∨ k = h.nextKey publicKey keyID at_ := by
    simp
  have hform := ne_empty_of_keyIDForm i.form
  refine ⟨i.accepted.concat hadmits, ?_, ?_, ⟨before, ⟨?_, s.other, ?_⟩, hat⟩, ?_, ?_, ?_, i.form, ?_, ?_⟩
  · rw [List.length_append, List.length_singleton]
    omega
  · intro l hl
    obtain hl | hl := List.mem_append.mp hl
    · exact i.clean l hl
    · rw [List.mem_singleton.mp hl]
      simpa using hclean
  · dsimp only
    rw [s.split, List.append_assoc, List.cons_append]
  · intro k hk
    obtain hk | rfl := hmem hk
    · exact s.on k hk
    · rfl
  · intro k hk
    obtain hk | hk := List.mem_append.mp hk
    · exact i.older k hk
    · rw [List.mem_singleton.mp hk]
      exact .inr (.inl rfl)
  · intro k hk
    have hne : h.keys ≠ [] := by
      rw [s.split]
      simp
    rw [List.tail_append_of_ne_nil hne] at hk
    obtain hk | hk := List.mem_append.mp hk
    · exact i.recorded k hk
    · rw [List.mem_singleton.mp hk]
      exact hform
  · intro k hk
    obtain hk | rfl := hmem hk
    · exact i.later k hk
    · exact hone
  · intro l hl
    obtain hl | hl := List.mem_append.mp hl
    · exact i.named l hl
    · rw [List.mem_singleton.mp hl, trailOf, hread]
  · have hsome : rotationOf line = some ⟨at_, h.current.keyID, publicKey⟩ := by rw [rotationOf, hread]
    obtain ⟨init, hinit⟩ : ∃ init, h.opening :: h.turned = init ++ [h.current] :=
      List.getLast?_eq_some_iff.mp i.current
    dsimp only
    rw [List.filterMap_append, i.rotations, ← List.cons_append, hinit, handovers_concat]
    simp [hsome, History.nextKey]

theorem Intact.begin {h : History} (i : Intact h) {trail : String} (hform : keyIDForm trail = true)
    (hnew : trail ∉ h.trail :: h.past) :
    Intact { h with lines := [], trail, past := h.trail :: h.past, opening := h.current, turned := [] } := by
  have hlast := i.keys_last
  obtain ⟨init, hinit⟩ : ∃ init, h.keys = init ++ [h.current] := List.getLast?_eq_some_iff.mp hlast
  have hmem : h.current ∈ h.keys := List.mem_of_getLast? hlast
  refine ⟨i.accepted, i.most, by simp, ⟨init, ⟨hinit, ?_, by simp⟩, ?_⟩, ?_, i.recorded, by simp, hform, by simp, rfl⟩
  · intro hne
    have htail : h.current ∈ h.keys.tail := by
      rw [hinit, List.tail_append_of_ne_nil hne]
      simp
    have hrecorded := i.recorded h.current htail
    refine ⟨hrecorded, fun heq => hnew ?_⟩
    change h.current.trail = trail at heq
    obtain h0 | h0 | h0 := i.older h.current hmem
    · exact absurd h0 hrecorded
    · rw [← heq, h0]
      exact List.mem_cons_self ..
    · rw [← heq]
      exact List.mem_cons_of_mem _ h0
  · rintro rfl
    exact (i.accepted.head h.current (by rw [hinit]; rfl)).1
  · intro k hk
    obtain h0 | h0 | h0 := i.older k hk
    · exact .inl h0
    · exact .inr (.inr (by rw [h0]; exact List.mem_cons_self ..))
    · exact .inr (.inr (List.mem_cons_of_mem _ h0))

theorem Intact.step {h : History} (i : Intact h) (e : Event) : Intact (h.step e) := by
  cases e with
  | rotate publicKey keyID at_ line =>
    simp only [History.step]
    split_ifs with hcan
    · exact i.rotate hcan
    · exact i
  | sign line =>
    simp only [History.step]
    split_ifs with hcan
    · simp only [Bool.and_eq_true, Bool.not_eq_true', beq_iff_eq] at hcan
      exact i.sign (by simpa using hcan.1) hcan.2
    · exact i
  | beginTrail trail =>
    simp only [History.step]
    split_ifs with hcan
    · simp only [Bool.and_eq_true, Bool.not_eq_true'] at hcan
      exact i.begin hcan.1 (by simpa using hcan.2)
    · exact i

/-! ## The list and the sidecar -/

/-- The list agrees with a sidecar of these lines. -/
def Agrees (h : History) (lines : List (List UInt8)) : Prop :=
  checkKeysAgainst h.keys h.current (some (readSidecarLines (lines.flatMap (· ++ [newline])))) = .ok ()

theorem Intact.agrees_of {h : History} (i : Intact h) {r : SidecarReading} (hm : r.mixed = false)
    (hr : r.trail = h.trail ∨ r.trail = "" ∧ h.turned = []) :
    checkKeysAgainst h.keys h.current (some r) = .ok () ↔ r.rotations = h.lines.filterMap rotationOf := by
  obtain ⟨before, s, -⟩ := i.splits
  have hfirst := trailFirst_splits s hm (hr.imp_left fun h => ⟨h, ne_empty_of_keyIDForm i.form⟩)
  have hdrop : h.keys.drop before.length = h.opening :: h.turned := by
    rw [s.split, List.drop_left]
  rw [checkKeysAgainst_ok, hfirst, hdrop, i.rotations]
  exact ⟨fun h => h.2.2.2, fun hr => ⟨⟨_, i.keys_last, rfl, rfl⟩, hm, s.length_lt, hr⟩⟩

/-- The history's own lines name its trail, or there are none. -/
theorem Intact.reading {h : History} (i : Intact h) :
    (Signing.reading h.lines).mixed = false ∧
      ((Signing.reading h.lines).trail = h.trail ∨ (Signing.reading h.lines).trail = "" ∧ h.turned = []) := by
  cases reading_trails h.lines with
  | none names trail mixed =>
    refine ⟨mixed, .inr ⟨trail, ?_⟩⟩
    have hlines : h.lines = [] := by
      rw [List.eq_nil_iff_forall_not_mem]
      intro l hl
      have := names l hl
      rw [i.named l hl] at this
      cases this
    have hrotations := i.rotations
    have hlen := length_handovers (h.opening :: h.turned)
    rw [← hrotations, hlines] at hlen
    exact List.length_eq_zero_iff.mp hlen.symm
  | one t trail mixed named only =>
    obtain ⟨l, hl, hlt⟩ := named
    rw [i.named l hl] at hlt
    exact ⟨mixed, .inl (trail.trans (Option.some.inj hlt).symm)⟩
  | mixed mixed two =>
    obtain ⟨l, hl, l', hl', t, t', ht, ht', hne⟩ := two
    rw [i.named l hl] at ht
    rw [i.named l' hl'] at ht'
    exact absurd (Option.some.inj (ht.symm.trans ht')) hne

theorem Intact.agrees {h : History} (i : Intact h) : Agrees h h.lines := by
  obtain ⟨hm, hr⟩ := i.reading
  rw [Agrees, readSidecarLines_lines i.clean, i.agrees_of hm hr, reading_rotations]

/-- Of the sidecars that name the trail, the list agrees with those of the same rotations and no other trail. -/
theorem Intact.agrees_iff {h : History} (i : Intact h) {lines : List (List UInt8)} (clean : ∀ l ∈ lines, newline ∉ l)
    (names : ∃ l ∈ lines, trailOf l = some h.trail) :
    Agrees h lines ↔ (∀ l ∈ lines, ∀ t, trailOf l = some t → t = h.trail) ∧
      lines.filterMap rotationOf = h.lines.filterMap rotationOf := by
  obtain ⟨l, hl, hlt⟩ := names
  rw [Agrees, readSidecarLines_lines clean]
  cases reading_trails lines with
  | none none =>
    have := none l hl
    rw [hlt] at this
    cases this
  | one t trail mixed named only =>
    obtain rfl := only l hl _ hlt
    rw [i.agrees_of mixed (.inl trail), reading_rotations]
    exact ⟨fun h => ⟨only, h⟩, fun h => h.2⟩
  | mixed mixed two =>
    obtain ⟨x, hx, y, hy, t, t', ht, ht', hne⟩ := two
    constructor
    · intro hc
      rw [checkKeysAgainst_ok, mixed] at hc
      exact absurd hc.2.1 (by decide)
    · rintro ⟨only, -⟩
      exact absurd ((only x hx t ht).trans (only y hy t' ht').symm) hne

theorem Intact.keysOfTrail {h : History} (i : Intact h) :
    Signing.keysOfTrail h.keys (some (readSidecarLines h.sidecar)) = { h.opening with at_ := 0 } :: h.turned := by
  obtain ⟨before, s, hat⟩ := i.splits
  obtain ⟨hm, hr⟩ := i.reading
  have hfirst := trailFirst_splits s hm (hr.imp_left fun h => ⟨h, ne_empty_of_keyIDForm i.form⟩)
  rw [Signing.keysOfTrail, History.sidecar, readSidecarLines_lines i.clean, hfirst]
  dsimp only
  split_ifs with h0
  · have hb := List.length_eq_zero_iff.mp h0
    rw [s.split, hb, ← hat hb]
    rfl
  · rw [s.split, List.drop_left]

/-- A key-rotation line names a trail. -/
theorem trailOf_of_rotationOf {line : List UInt8} {rotation : SidecarRotation} (h : rotationOf line = some rotation) :
    ∃ t, trailOf line = some t := by
  unfold rotationOf at h
  unfold trailOf
  split at h
  · rename_i rotation' trail hl
    exact ⟨trail, by rw [hl]⟩
  · cases h

/-- One key-rotation line more is one rotation more. -/
theorem length_rotations (pre post : List (List UInt8)) {line : List UInt8} {rotation : SidecarRotation}
    (hline : rotationOf line = some rotation) :
    ((pre ++ line :: post).filterMap rotationOf).length = ((pre ++ post).filterMap rotationOf).length + 1 := by
  simp [hline]
  omega

/-- The list of every history is read back, agrees with the sidecar, and gives the keys of the trail: the one
it began with, from 0, and those rotated to. Of the sidecars that still name the trail it agrees with those that
name no other and read the same rotations in the same order; so with none where a key-rotation line was removed,
changed in what is read of it, written twice, or moved among the key-rotation lines. -/
theorem list_matches_trail (first : DeskPublicKey) (trail : String) (f : First first) (form : keyIDForm trail = true)
    (events : List Event) :
    let h := run History.step (.start first trail) events
    parseDeskKeys (keysLines h.keys) = .ok h.keys ∧
    checkKeysAgainst h.keys h.current (some (readSidecarLines h.sidecar)) = .ok () ∧
    keysOfTrail h.keys (some (readSidecarLines h.sidecar)) = { h.opening with at_ := 0 } :: h.turned ∧
    (∀ lines, (∀ l ∈ lines, newline ∉ l) → (∃ l ∈ lines, trailOf l = some h.trail) →
      (Agrees h lines ↔ (∀ l ∈ lines, ∀ t, trailOf l = some t → t = h.trail) ∧
        lines.filterMap rotationOf = h.lines.filterMap rotationOf)) ∧
    (∀ pre line post rotation, h.lines = pre ++ line :: post → rotationOf line = some rotation →
      ((∃ l ∈ pre ++ post, trailOf l = some h.trail) → ¬Agrees h (pre ++ post)) ∧
      (∀ line', newline ∉ line' → (∃ l ∈ pre ++ line' :: post, trailOf l = some h.trail) →
        rotationOf line' ≠ some rotation ∨ trailOf line' ≠ some h.trail → ¬Agrees h (pre ++ line' :: post)) ∧
      (∀ pre' post', h.lines = pre' ++ post' → ¬Agrees h (pre' ++ line :: post')) ∧
      (∀ lines, lines.Perm h.lines → lines.filterMap rotationOf ≠ h.lines.filterMap rotationOf → ¬Agrees h lines)) := by
  intro h
  have i : Intact h := run_invariant (P := Intact) (fun _ e i => i.step e) (Intact.start f form) events
  obtain ⟨before, s, -⟩ := i.splits
  have hne : h.keys ≠ [] := by
    rw [s.split]
    simp
  refine ⟨i.accepted.parse hne i.most, i.agrees, i.keysOfTrail, fun lines clean names => i.agrees_iff clean names, ?_⟩
  intro pre line post rotation hlines hrotation
  have hclean : ∀ l ∈ pre ++ line :: post, newline ∉ l := hlines ▸ i.clean
  have hnamed : ∀ l ∈ pre ++ line :: post, trailOf l = some h.trail := hlines ▸ i.named
  have hlen := length_rotations pre post hrotation
  refine ⟨?_, ?_, ?_, ?_⟩
  · intro names hagrees
    have hc : ∀ l ∈ pre ++ post, newline ∉ l := fun l hl => hclean l (by
      simp only [List.mem_append, List.mem_cons] at hl ⊢
      tauto)
    obtain ⟨-, heq⟩ := (i.agrees_iff hc names).mp hagrees
    rw [hlines] at heq
    have := congrArg List.length heq
    omega
  · intro line' hline' names hchanged hagrees
    have hc : ∀ l ∈ pre ++ line' :: post, newline ∉ l := by
      intro l hl
      simp only [List.mem_append, List.mem_cons] at hl
      obtain hl | rfl | hl := hl
      · exact hclean l (by simp [hl])
      · exact hline'
      · exact hclean l (by simp [hl])
    obtain ⟨honly, heq⟩ := (i.agrees_iff hc names).mp hagrees
    by_cases hr : rotationOf line' = some rotation
    · obtain ⟨t, ht⟩ := trailOf_of_rotationOf hr
      have htrail := honly line' (by simp) t ht
      obtain hne | hne := hchanged
      · exact hne hr
      · exact hne (by rw [ht, htrail])
    · rw [hlines, List.filterMap_append, List.filterMap_append, List.append_right_inj,
        List.filterMap_cons_some hrotation] at heq
      cases hl : rotationOf line' with
      | none =>
        rw [List.filterMap_cons_none hl] at heq
        have := congrArg List.length heq
        simp at this
      | some rotation' =>
        rw [List.filterMap_cons_some hl] at heq
        exact hr (hl.trans (congrArg some (List.head_eq_of_cons_eq heq)))
  · intro pre' post' hsplit hagrees
    have hin : ∀ l ∈ pre' ++ line :: post', l ∈ pre ++ line :: post := by
      intro l hl
      simp only [List.mem_append, List.mem_cons] at hl
      have hmem : l ∈ pre' ++ post' ∨ l = line := by
        simp only [List.mem_append]
        tauto
      obtain hmem | rfl := hmem
      · rwa [← hlines, hsplit]
      · simp
    have hc : ∀ l ∈ pre' ++ line :: post', newline ∉ l := fun l hl => hclean l (hin l hl)
    obtain ⟨-, heq⟩ := (i.agrees_iff hc ⟨line, by simp, hnamed line (by simp)⟩).mp hagrees
    have hlen' := length_rotations pre' post' hrotation
    rw [hsplit] at heq
    have := congrArg List.length heq
    omega
  · intro lines hperm hne hagrees
    have hc : ∀ l ∈ lines, newline ∉ l := fun l hl => i.clean l (hperm.mem_iff.mp hl)
    have hmem : line ∈ lines := hperm.mem_iff.mpr (by simp [hlines])
    exact hne ((i.agrees_iff hc ⟨line, hmem, hnamed line (by simp)⟩).mp hagrees).2

/-! ## A first rotation -/

def zeros (n : Nat) : String := String.ofList (List.replicate n '0')

def ones (n : Nat) : String := String.ofList (List.replicate n '1')

theorem hexForm_zeros (n : Nat) : hexForm "" n (zeros n) = true := by
  simp [hexForm, hasPrefix, zeros, isLowerHex]

theorem hexForm_ones (n : Nat) : hexForm "" n (ones n) = true := by
  simp [hexForm, hasPrefix, ones, isLowerHex]

theorem keyIDForm_keyIDOf {publicKey : String} (raw : List UInt8) (h : decodeHex publicKey.toList = some raw) :
    keyIDForm (keyIDOf publicKey) = true := by
  have hform := digestOf_form raw
  have hlen := length_of_hexForm hform
  simp only [hexForm, Bool.and_eq_true, List.all_eq_true] at hform
  simp only [keyIDOf, h, keyIDForm, hexForm, hasPrefix, Bool.and_eq_true, decide_eq_true_eq, String.toList_ofList,
    List.all_eq_true]
  refine ⟨⟨rfl, ?_⟩, ?_⟩
  · simp at hlen ⊢
    omega
  · intro c hc
    exact hform.2 c (List.mem_of_mem_take hc)

def keyOf (publicKey : String) : DeskPublicKey := { publicKey, keyID := keyIDOf publicKey }

theorem first_keyID : keyIDForm (keyIDOf (zeros 64)) = true := by
  apply keyIDForm_keyIDOf (List.replicate 32 0)
  rw [zeros, String.toList_ofList]
  decide

theorem first_zeros : First (keyOf (zeros 64)) where
  check := by
    have hid := first_keyID
    have hkey : publicKeyForm (zeros 64) = true := hexForm_zeros 64
    simp [keyOf, DeskPublicKey.check, hid, hkey]
  at_ := rfl
  trail := rfl

/-- A line that hands over from the first key after the first record. -/
def handoverLine (signature : String) : Json :=
  .obj [("sidecarVersion", .str "1"), ("kind", .str "key-rotation"), ("trail", .str (zeros 32)),
    ("keyId", .str (keyIDOf (zeros 64))), ("at", .num (toString (1 : Int))), ("next", .str (ones 64)),
    ("signature", .str signature)]

theorem handoverLine_plain (signature : String) : (handoverLine signature).Plain := by
  refine ⟨trivial, trivial, trivial, trivial, ⟨1, rfl⟩, trivial, trivial, trivial⟩

theorem handoverLine_nesting {signature : String} : Json.nesting (handoverLine signature) ≤ Json.maxNesting := by
  simp [handoverLine, Json.nesting, Json.nestingMembers, Json.maxNesting]

theorem length_handoverLine {signature : String} (h : signatureForm signature = true) :
    (handoverLine signature).marshal.length ≤ sidecarLineLimit := by
  have hsig := len_of_hexForm (n := 128) h
  have hid := len_of_hexForm (n := 32) first_keyID
  have htrail := len_of_hexForm (hexForm_zeros 32)
  have hnext := len_of_hexForm (hexForm_ones 64)
  refine Nat.le_trans (Json.length_marshal_le _) ?_
  simp only [handoverLine, Json.room, Json.roomMembers, hsig, hid, htrail, hnext]
  decide

theorem sidecarInteger_one {members : List (String × Json)} {name : String}
    (h : members.lookup name = some (.num (toString (1 : Int)))) : sidecarInteger members name = some 1 := by
  have htext : toString (1 : Int) = Nat.repr 1 := rfl
  have hdigit : ¬((Nat.repr 1).toList.head? = some '0' ∨ (Nat.repr 1).toList.any (fun c => !c.isDigit) = true) := by decide
  simp only [sidecarInteger, h, htext, if_neg hdigit, Nat.toNat?_repr]
  decide

theorem readSidecarLine_handoverLine {signature : String} (h : signatureForm signature = true) :
    readSidecarLine (handoverLine signature).marshal =
      some (.keyRotation ⟨1, keyIDOf (zeros 64), ones 64⟩ (zeros 32)) := by
  have hlen := length_handoverLine h
  have hpos : (handoverLine signature).marshal.length ≠ 0 := by
    intro h0
    have hnil := List.length_eq_zero_iff.mp h0
    have hparse := Json.parse_marshal (handoverLine_plain signature) handoverLine_nesting
    rw [hnil] at hparse
    cases hparse
  have htrail : keyIDForm (zeros 32) = true := hexForm_zeros 32
  have hid : keyIDForm (keyIDOf (zeros 64)) = true := first_keyID
  have hnext : publicKeyForm (ones 64) = true := hexForm_ones 64
  rw [readSidecarLine, if_neg (by omega), Json.parse_marshal (handoverLine_plain signature) handoverLine_nesting]
  simp [handoverLine, exactMembers, sidecarForm, sidecarString, List.lookup_cons, htrail, hid, hnext, h, Option.filter_some,
    sidecarInteger_one]

theorem newline_not_mem_handoverLine {signature : String} : newline ∉ (handoverLine signature).marshal :=
  Json.newline_not_mem_marshal (handoverLine_plain signature)

theorem handoverLine_injective {signature signature' : String}
    (h : (handoverLine signature).marshal = (handoverLine signature').marshal) : signature = signature' := by
  have hleft := Json.parse_marshal (handoverLine_plain signature) handoverLine_nesting
  have hright := Json.parse_marshal (handoverLine_plain signature') handoverLine_nesting
  rw [h, hright] at hleft
  simp only [handoverLine, Option.some.injEq, Json.obj.injEq, List.cons.injEq, Prod.mk.injEq, Json.str.injEq, true_and,
    and_true] at hleft
  exact hleft.symm

theorem second_keyID : keyIDForm (keyIDOf (ones 64)) = true := by
  apply keyIDForm_keyIDOf (List.replicate 32 17)
  rw [ones, String.toList_ofList]
  decide

theorem zeros_ne_ones {n : Nat} (h : 0 < n) : zeros n ≠ ones n := by
  intro heq
  have hlist := congrArg String.toList heq
  obtain ⟨n, rfl⟩ := Nat.exists_eq_succ_of_ne_zero h.ne'
  simp [zeros, ones, List.replicate_succ] at hlist

/-- The first key hands over to the second after the first record. -/
def handover : Event := .rotate (ones 64) (keyIDOf (ones 64)) 1 (handoverLine (zeros 128)).marshal

theorem canRotate_handover :
    (History.start (keyOf (zeros 64)) (zeros 32)).canRotate (ones 64) (keyIDOf (ones 64)) 1
      (handoverLine (zeros 128)).marshal = true := by
  have hkey : publicKeyForm (ones 64) = true := hexForm_ones 64
  have hid := second_keyID
  have htrail : keyIDForm (zeros 32) = true := hexForm_zeros 32
  have hcheck : ((History.start (keyOf (zeros 64)) (zeros 32)).nextKey (ones 64) (keyIDOf (ones 64)) 1).check = none := by
    simp [History.nextKey, History.start, DeskPublicKey.check, hkey, hid, htrail]
  have hread : readSidecarLine (handoverLine (zeros 128)).marshal =
      some (.keyRotation ⟨1, keyIDOf (zeros 64), ones 64⟩ (zeros 32)) :=
    readSidecarLine_handoverLine (hexForm_zeros 128)
  have hclean : newline ∉ (handoverLine (zeros 128)).marshal := newline_not_mem_handoverLine
  have hother : zeros 64 ≠ ones 64 := zeros_ne_ones (by decide)
  simp only [History.canRotate, hcheck, hread]
  simp [hclean, History.start, History.recordSince, History.current, keyOf, hother, maxDeskKeys]

theorem run_handover :
    run History.step (.start (keyOf (zeros 64)) (zeros 32)) [handover] =
      { History.start (keyOf (zeros 64)) (zeros 32) with
        keys := [keyOf (zeros 64), { publicKey := ones 64, keyID := keyIDOf (ones 64), at_ := 1, trail := zeros 32 }],
        lines := [(handoverLine (zeros 128)).marshal],
        turned := [{ publicKey := ones 64, keyID := keyIDOf (ones 64), at_ := 1, trail := zeros 32 }] } := by
  have hcan := canRotate_handover
  rw [run_cons, run_nil, handover, History.step, if_pos hcan]
  rfl

theorem list_matches_trail_handover :
    First (keyOf (zeros 64)) ∧ keyIDForm (zeros 32) = true ∧
      let h := run History.step (.start (keyOf (zeros 64)) (zeros 32)) [handover]
      let line := (handoverLine (zeros 128)).marshal
      parseDeskKeys (keysLines h.keys) = .ok h.keys ∧ h.keys.length = 2 ∧ h.lines = [line] ∧ ¬Agrees h [line, line] := by
  have hm := list_matches_trail (keyOf (zeros 64)) (zeros 32) first_zeros (hexForm_zeros 32) [handover]
  have hrotation : rotationOf (handoverLine (zeros 128)).marshal = some ⟨1, keyIDOf (zeros 64), ones 64⟩ := by
    rw [rotationOf, readSidecarLine_handoverLine (hexForm_zeros 128)]
  have hlines : (run History.step (.start (keyOf (zeros 64)) (zeros 32)) [handover]).lines =
      [(handoverLine (zeros 128)).marshal] := by
    rw [run_handover]
  have hkeys : (run History.step (.start (keyOf (zeros 64)) (zeros 32)) [handover]).keys.length = 2 := by
    rw [run_handover]
    rfl
  obtain ⟨hparse, -, -, -, hline⟩ := hm
  obtain ⟨-, -, htwice, -⟩ := hline [] _ [] _ hlines hrotation
  exact ⟨first_zeros, hexForm_zeros 32, hparse, hkeys, hlines, htwice [_] [] hlines⟩

/-- A line that reads as the history's only line does stands in for it. -/
theorem Intact.agrees_alike {h : History} (i : Intact h) {line line' : List UInt8} {rotation : SidecarRotation}
    (hlines : h.lines = [line]) (hread : readSidecarLine line = some (.keyRotation rotation h.trail))
    (hread' : readSidecarLine line' = some (.keyRotation rotation h.trail)) (hclean : newline ∉ line') :
    (∃ l ∈ [line'], trailOf l = some h.trail) ∧ Agrees h [line'] := by
  have hnamed : trailOf line' = some h.trail := by rw [trailOf, hread']
  have names : ∃ l ∈ [line'], trailOf l = some h.trail := ⟨line', List.mem_singleton_self _, hnamed⟩
  have clean : ∀ l ∈ [line'], newline ∉ l := by
    intro l hl
    rwa [List.mem_singleton.mp hl]
  have only : ∀ l ∈ [line'], ∀ t, trailOf l = some t → t = h.trail := by
    intro l hl t ht
    rw [List.mem_singleton.mp hl, hnamed] at ht
    exact (Option.some.inj ht).symm
  have hrotations : [line'].filterMap rotationOf = h.lines.filterMap rotationOf := by
    rw [hlines]
    simp only [List.filterMap_cons, List.filterMap_nil, rotationOf, hread, hread']
  exact ⟨names, (i.agrees_iff clean names).mpr ⟨only, hrotations⟩⟩

/-- A rotation by the first key, whose line then has another signature. -/
theorem changed_signature_agrees :
    ∃ first trail events line line', First first ∧ keyIDForm trail = true ∧
      let h := run History.step (.start first trail) events
      h.lines = [line] ∧ (rotationOf line).isSome = true ∧ line' ≠ line ∧ newline ∉ line' ∧
        (∃ l ∈ [line'], trailOf l = some h.trail) ∧ Agrees h [line'] := by
  have hread := readSidecarLine_handoverLine (hexForm_zeros 128)
  have hread' := readSidecarLine_handoverLine (hexForm_ones 128)
  have hclean : newline ∉ (handoverLine (ones 128)).marshal := newline_not_mem_handoverLine
  have hother : (handoverLine (ones 128)).marshal ≠ (handoverLine (zeros 128)).marshal := by
    intro heq
    exact zeros_ne_ones (by decide) (handoverLine_injective heq).symm
  have hrotation : (rotationOf (handoverLine (zeros 128)).marshal).isSome = true := by
    rw [rotationOf, hread]
    rfl
  have i : Intact (run History.step (.start (keyOf (zeros 64)) (zeros 32)) [handover]) :=
    run_invariant (P := Intact) (fun _ e i => i.step e) (Intact.start first_zeros (hexForm_zeros 32)) [handover]
  have hlines : (run History.step (.start (keyOf (zeros 64)) (zeros 32)) [handover]).lines =
      [(handoverLine (zeros 128)).marshal] := by
    rw [run_handover]
  have htrail : (run History.step (.start (keyOf (zeros 64)) (zeros 32)) [handover]).trail = zeros 32 := by
    rw [run_handover]
    rfl
  rw [← htrail] at hread hread'
  obtain ⟨names, agrees⟩ := i.agrees_alike hlines hread hread' hclean
  exact ⟨keyOf (zeros 64), zeros 32, [handover], _, _, first_zeros, hexForm_zeros 32, hlines, hrotation, hother, hclean,
    names, agrees⟩

end Desk.Signing
