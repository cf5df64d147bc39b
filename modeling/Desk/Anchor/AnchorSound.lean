import Desk.Anchor.Anchor

/-!
# Rollback protection of the anchor

Whatever stops or fails, the anchor record names the last ledger whose writing
was finished, and a record left with an intent admits nobody again.
-/

namespace Desk

section
variable {D : Type}

/-! ## The finished writes -/

def finalOf : DiskWrite D × WriteFate → Option (PolicyAuthorityAnchorState D)
  | (.anchor state, fate) => if fate.took && state.intent.isNone then some state else none
  | (.ledger _, _) => none

/-- The record as it was before its intent. -/
def PolicyAuthorityAnchorState.settled (s : PolicyAuthorityAnchorState D) : PolicyAuthorityAnchorState D :=
  { s with intent := none }

theorem PolicyAuthorityAnchorState.settled_of_none {s : PolicyAuthorityAnchorState D} (h : s.intent = none) :
    s.settled = s := by
  unfold settled; rw [← h]

namespace AnchorWorld

/-- The records without an intent that reached the disk: the enrolment, then every final write. -/
def finals (w : AnchorWorld D) : List (PolicyAuthorityAnchorState D) := w.log.filterMap finalOf

def generation (w : AnchorWorld D) : Nat := (w.disk.anchor.map (·.generation)).getD 0

/-- The anchor record is the last finished one, but for an intent, and counts them. -/
def Recorded (w : AnchorWorld D) : Prop :=
  match w.disk.anchor with
  | none => w.finals = []
  | some s => w.finals.getLast? = some s.settled ∧ s.generation = w.finals.length

theorem recorded_some {w : AnchorWorld D} {s : PolicyAuthorityAnchorState D} (hs : w.disk.anchor = some s) :
    w.Recorded ↔ w.finals.getLast? = some s.settled ∧ s.generation = w.finals.length := by
  unfold Recorded; rw [hs]

def Grows (w w' : AnchorWorld D) : Prop := w'.Recorded ∧ w.finals <+: w'.finals

theorem Grows.refl {w : AnchorWorld D} (h : w.Recorded) : Grows w w := ⟨h, List.prefix_refl _⟩

theorem Grows.trans {w₁ w₂ w₃ : AnchorWorld D} (h₁ : Grows w₁ w₂) (h₂ : Grows w₂ w₃) : Grows w₁ w₃ :=
  ⟨h₂.1, h₁.2.trans h₂.2⟩

theorem Grows.poison {w w' : AnchorWorld D} (h : Grows w w') : Grows w w'.poison := h

theorem Recorded.generation_eq {w : AnchorWorld D} (h : w.Recorded) : w.generation = w.finals.length := by
  unfold Recorded at h
  unfold generation
  cases ha : w.disk.anchor with
  | none => rw [ha] at h; simp [h]
  | some s => rw [ha] at h; simp [h.2]

/-! ## Single writes -/

theorem finals_attempt (w : AnchorWorld D) (write : DiskWrite D) (fate : WriteFate) :
    (w.attempt write fate).finals = w.finals ++ (finalOf (write, fate)).toList := by
  unfold finals attempt
  rw [List.filterMap_append]
  cases h : finalOf (write, fate) <;> simp [h]

theorem anchor_attempt_ledger (w : AnchorWorld D) (raw : List UInt8) (fate : WriteFate) :
    (w.attempt (.ledger raw) fate).disk.anchor = w.disk.anchor := by
  unfold attempt
  cases fate.took <;> rfl

theorem anchor_attempt_anchor (w : AnchorWorld D) (s : PolicyAuthorityAnchorState D) (fate : WriteFate) :
    (w.attempt (.anchor s) fate).disk.anchor = if fate.took then some s else w.disk.anchor := by
  unfold attempt
  cases fate.took <;> rfl

theorem grows_ledger {w : AnchorWorld D} (h : w.Recorded) (raw : List UInt8) (fate : WriteFate) :
    Grows w (w.attempt (.ledger raw) fate) := by
  have hf : (w.attempt (.ledger raw) fate).finals = w.finals := by
    simp [finals_attempt, finalOf]
  refine ⟨?_, [], by rw [List.append_nil, hf]⟩
  unfold Recorded
  rw [hf, anchor_attempt_ledger]
  exact h

/-- A record may follow another with an intent added, or as the next finished one. -/
def Follows : Option (PolicyAuthorityAnchorState D) → PolicyAuthorityAnchorState D → Prop
  | none, next => next.intent = none ∧ next.generation = 1
  | some s, next =>
    next.intent.isSome ∧ next.settled = s.settled ∨ next.intent = none ∧ next.generation = s.generation + 1

theorem grows_final {w : AnchorWorld D} {next : PolicyAuthorityAnchorState D} {fate : WriteFate}
    (ht : fate.took = true) (hi : next.intent = none) (hg : next.generation = w.finals.length + 1) :
    Grows w (w.attempt (.anchor next) fate) := by
  have ha : (w.attempt (.anchor next) fate).disk.anchor = some next := by
    rw [anchor_attempt_anchor, if_pos ht]
  have hf : finalOf (.anchor next, fate) = some next := by simp [finalOf, ht, hi]
  unfold Grows
  rw [recorded_some ha, finals_attempt, hf, Option.toList_some, PolicyAuthorityAnchorState.settled_of_none hi,
    List.getLast?_append, List.length_append, hg]
  exact ⟨⟨rfl, rfl⟩, List.prefix_append _ _⟩

theorem grows_anchor {w : AnchorWorld D} (h : w.Recorded) {next : PolicyAuthorityAnchorState D}
    (hn : Follows w.disk.anchor next) (fate : WriteFate) : Grows w (w.attempt (.anchor next) fate) := by
  by_cases ht : fate.took = true
  · unfold Recorded at h
    unfold Follows at hn
    cases hs : w.disk.anchor with
    | none =>
      rw [hs] at h hn
      exact grows_final ht hn.1 (by rw [h]; exact hn.2)
    | some s =>
      rw [hs] at h hn
      rcases hn with ⟨hi, he⟩ | ⟨hi, hg⟩
      · have ha : (w.attempt (.anchor next) fate).disk.anchor = some next := by
          rw [anchor_attempt_anchor, if_pos ht]
        have hf : finalOf (.anchor next, fate) = none := by
          simp [finalOf, Option.isSome_iff_ne_none.mp hi]
        have hgen : next.settled.generation = s.settled.generation := by rw [he]
        unfold Grows
        rw [recorded_some ha, finals_attempt, hf, Option.toList_none, List.append_nil, he]
        exact ⟨⟨h.1, hgen.trans h.2⟩, List.prefix_refl _⟩
      · exact grows_final ht hi (by rw [← h.2]; exact hg)
  · have hf : finalOf (.anchor next, fate) = none := by simp [finalOf, ht]
    have hd : (w.attempt (.anchor next) fate).disk = w.disk := by
      unfold attempt; rw [if_neg ht]
    unfold Grows Recorded
    rw [hd, finals_attempt, hf, Option.toList_none, List.append_nil]
    exact ⟨h, List.prefix_refl _⟩

def attempts (w : AnchorWorld D) (writes : List (DiskWrite D × WriteFate)) : AnchorWorld D :=
  writes.foldl (fun w write => w.attempt write.1 write.2) w

theorem log_attempts (w : AnchorWorld D) (writes : List (DiskWrite D × WriteFate)) :
    (w.attempts writes).log = w.log ++ writes := by
  induction writes generalizing w with
  | nil => exact (List.append_nil _).symm
  | cons write rest ih =>
    have h := ih (w.attempt write.1 write.2)
    rw [show (w.attempt write.1 write.2).log = w.log ++ [write] from rfl, List.append_assoc] at h
    exact h

theorem poisoned_attempts (w : AnchorWorld D) (writes : List (DiskWrite D × WriteFate)) :
    (w.attempts writes).poisoned = w.poisoned := by
  induction writes generalizing w with
  | nil => rfl
  | cons write rest ih => exact ih (w.attempt write.1 write.2)

end AnchorWorld

/-! ## How Advance ends -/

section
variable [DecidableEq D] {scheme : DigestScheme D}

/-- An end in doubt after the writes that led to `w₀`. -/
def BrokenAt (w₀ : AnchorWorld D) (r : Returned PolicyAuthorityAnchorError) (w : AnchorWorld D) : Prop :=
  r = .error (policyAuthorityAnchorRefusal .uncertain) ∧ w = w₀.poison ∨ (r = .panicked ∨ r = .stopped) ∧ w = w₀

theorem persist_end {fate : WriteFate} {state : PolicyAuthorityAnchorState D} {w w' : AnchorWorld D}
    {r : Returned PolicyAuthorityAnchorError} (h : persist scheme fate state w = (r, w')) :
    validatePolicyAuthorityAnchorState scheme state = false ∧
        r = .error (policyAuthorityAnchorRefusal .integrity) ∧ w' = w ∨
      validatePolicyAuthorityAnchorState scheme state = true ∧
        (fate = .succeeds ∧ r = .nil ∧ w' = w.attempt (.anchor state) .succeeds ∨
          BrokenAt (w.attempt (.anchor state) fate) r w') := by
  unfold persist at h
  by_cases hv : validatePolicyAuthorityAnchorState scheme state = true
  · rw [hv] at h
    refine Or.inr ⟨hv, ?_⟩
    cases fate with
    | succeeds => cases h; exact Or.inl ⟨rfl, rfl, rfl⟩
    | fails took => cases h; exact Or.inr (Or.inl ⟨rfl, rfl⟩)
    | panics took => cases h; exact Or.inr (Or.inr ⟨Or.inl rfl, rfl⟩)
    | stops took => cases h; exact Or.inr (Or.inr ⟨Or.inr rfl, rfl⟩)
  · rw [Bool.not_eq_true] at hv
    rw [hv] at h
    cases h
    exact Or.inl ⟨hv, rfl, rfl⟩

def PolicyAuthorityAnchorState.pending (scheme : DigestScheme D) (s : PolicyAuthorityAnchorState D)
    (next : List UInt8) (nonce : String) : PolicyAuthorityAnchorState D :=
  { s with intent := some ⟨s.generation + 1, s.ledgerDigest, scheme.digestOf next, nonce⟩ }

def PolicyAuthorityAnchorState.committed (scheme : DigestScheme D) (s : PolicyAuthorityAnchorState D)
    (next : List UInt8) : PolicyAuthorityAnchorState D :=
  { s with generation := s.generation + 1, ledgerDigest := scheme.digestOf next, intent := none }

theorem validate_committed {s : PolicyAuthorityAnchorState D} {next : List UInt8} {nonce : String}
    (h : validatePolicyAuthorityAnchorState scheme (s.pending scheme next nonce) = true) :
    validatePolicyAuthorityAnchorState scheme (s.committed scheme next) = true := by
  unfold validatePolicyAuthorityAnchorState PolicyAuthorityAnchorState.pending at h
  unfold validatePolicyAuthorityAnchorState PolicyAuthorityAnchorState.committed
  simp only [PolicyAuthorityAnchorIntent.valid, Option.all_some, Option.all_none, Bool.and_eq_true,
    decide_eq_true_eq, bne_iff_ne, scheme.form_digestOf] at h ⊢
  obtain ⟨⟨⟨⟨h₁, _⟩, hmax⟩, _⟩, ⟨⟨⟨⟨hne, _⟩, _⟩, _⟩, _⟩, _⟩ := h
  exact ⟨⟨⟨⟨h₁, by omega⟩, by omega⟩, trivial⟩, trivial⟩

/-- The three writes of one `Advance`. -/
def advanceWrites (scheme : DigestScheme D) (s : PolicyAuthorityAnchorState D) (next : List UInt8) (nonce : String)
    (f₁ f₂ f₃ : WriteFate) : List (DiskWrite D × WriteFate) :=
  [(.anchor (s.pending scheme next nonce), f₁), (.ledger next, f₂), (.anchor (s.committed scheme next), f₃)]

/-- Every end of `advanceLocked`: nothing was attempted, some write leaves a doubt, or all three are done. -/
inductive AdvanceEnd (scheme : DigestScheme D) (next : List UInt8) (h : AnchorHeld D) (w : AnchorWorld D) :
    Returned PolicyAuthorityAnchorError → AnchorHeld D → AnchorWorld D → Prop where
  | same : scheme.digestOf next = h.state.ledgerDigest →
      AdvanceEnd scheme next h w .nil { h with attempted := true } w
  | refused (e : PolicyAuthorityAnchorError) : AdvanceEnd scheme next h w (.error e) { h with attempted := true } w
  | broken {r : Returned PolicyAuthorityAnchorError} {w' : AnchorWorld D} (h' : AnchorHeld D) (nonce : String)
      (f₁ f₂ f₃ : WriteFate) (writes : List (DiskWrite D × WriteFate)) : writes ≠ [] →
      writes <+: advanceWrites scheme h.state next nonce f₁ f₂ f₃ → BrokenAt (w.attempts writes) r w' →
      AdvanceEnd scheme next h w r h' w'
  | done (nonce : String) : validatePolicyAuthorityAnchorState scheme (h.state.committed scheme next) = true →
      AdvanceEnd scheme next h w .nil
        { h with state := h.state.committed scheme next, attempted := true, advanced := true }
        (w.attempts (advanceWrites scheme h.state next nonce .succeeds .succeeds .succeeds))

section
variable {call : AdvanceCall} {h h' : AnchorHeld D} {w w' : AnchorWorld D}
  {r : Returned PolicyAuthorityAnchorError} {s : PolicyAuthorityAnchorState D} {nonce : String}

theorem advanceFinal_end (hs : h.state = s.pending scheme call.nextLedger nonce)
    (hv : validatePolicyAuthorityAnchorState scheme (s.committed scheme call.nextLedger) = true)
    (he : advanceFinal scheme call h w = (r, h', w')) :
    BrokenAt w r w' ∨ BrokenAt (w.attempt (.anchor (s.committed scheme call.nextLedger)) call.finalFate) r w' ∨
      r = .nil ∧ h' = { h with state := s.committed scheme call.nextLedger, advanced := true } ∧
        w' = w.attempt (.anchor (s.committed scheme call.nextLedger)) .succeeds := by
  unfold advanceFinal at he
  split at he
  · cases he; exact Or.inl (Or.inl ⟨rfl, rfl⟩)
  · have hc : { h.state with
        generation := h.state.generation + 1, ledgerDigest := scheme.digestOf call.nextLedger, intent := none } =
        s.committed scheme call.nextLedger := by rw [hs]; rfl
    simp only [hc] at he
    cases hp : persist scheme call.finalFate (s.committed scheme call.nextLedger) w with
    | mk r₁ w₁ =>
      rw [hp] at he
      obtain ⟨_, ⟨hf, rfl, rfl⟩ | hb⟩ := (persist_end hp).resolve_left fun hb => by
        rw [hv] at hb; cases hb.1
      · right
        cases hh : call.finalHeld with
        | false => rw [hh] at he; cases he; rw [hf]; exact Or.inl (Or.inl ⟨rfl, rfl⟩)
        | true => rw [hh] at he; cases he; exact Or.inr ⟨rfl, rfl, rfl⟩
      · refine Or.inr (Or.inl ?_)
        obtain ⟨rfl, rfl⟩ | ⟨rfl | rfl, rfl⟩ := hb
        · cases he; exact Or.inl ⟨rfl, rfl⟩
        · cases he; exact Or.inr ⟨Or.inl rfl, rfl⟩
        · cases he; exact Or.inr ⟨Or.inr rfl, rfl⟩

theorem advanceLedger_end {write : DurableWrite} (hs : h.state = s.pending scheme call.nextLedger nonce)
    (hv : validatePolicyAuthorityAnchorState scheme (s.committed scheme call.nextLedger) = true)
    (he : advanceLedger scheme call write h w = (r, h', w')) :
    (∃ writes, writes <+: [(.ledger call.nextLedger, write.fate),
        (.anchor (s.committed scheme call.nextLedger), call.finalFate)] ∧ BrokenAt (w.attempts writes) r w') ∨
      r = .nil ∧ h' = { h with state := s.committed scheme call.nextLedger, advanced := true } ∧
        w' = w.attempts [(.ledger call.nextLedger, .succeeds),
          (.anchor (s.committed scheme call.nextLedger), .succeeds)] := by
  unfold advanceLedger at he
  split at he
  · cases he; exact Or.inl ⟨[], List.nil_prefix, Or.inl ⟨rfl, rfl⟩⟩
  · have one : BrokenAt (w.attempt (.ledger call.nextLedger) write.fate) r w' →
        ∃ writes, writes <+: [(.ledger call.nextLedger, write.fate),
          (.anchor (s.committed scheme call.nextLedger), call.finalFate)] ∧ BrokenAt (w.attempts writes) r w' :=
      fun hb => ⟨[(.ledger call.nextLedger, write.fate)], ⟨[_], rfl⟩, hb⟩
    simp only at he
    split at he
    · rename_i hf
      split at he
      · cases he; exact Or.inl (one (Or.inl ⟨rfl, rfl⟩))
      · obtain hb | hb | ⟨rfl, rfl, rfl⟩ := advanceFinal_end hs hv he
        · exact Or.inl (one hb)
        · exact Or.inl ⟨_, List.prefix_refl _, hb⟩
        · rw [hf]; exact Or.inr ⟨rfl, rfl, rfl⟩
    · cases he; exact Or.inl (one (Or.inl ⟨rfl, rfl⟩))
    · cases he; exact Or.inl (one (Or.inr ⟨Or.inl rfl, rfl⟩))
    · cases he; exact Or.inl (one (Or.inr ⟨Or.inr rfl, rfl⟩))

theorem advanceIntent_end {write : DurableWrite}
    (he : (match persist scheme call.intentFate (h.state.pending scheme call.nextLedger nonce) w with
      | (.nil, w) => advanceLedger scheme call write
          { h with state := h.state.pending scheme call.nextLedger nonce, attempted := true } w
      | (r, w) => (r, { h with attempted := true }, w)) = (r, h', w')) :
    AdvanceEnd scheme call.nextLedger h w r h' w' := by
  cases hp : persist scheme call.intentFate (h.state.pending scheme call.nextLedger nonce) w with
  | mk r₁ w₁ =>
    rw [hp] at he
    obtain ⟨_, rfl, rfl⟩ | ⟨hv, ⟨hf, rfl, rfl⟩ | hb⟩ := persist_end hp
    · cases he; exact .refused _
    · have hc := validate_committed hv
      obtain ⟨writes, hpre, hb⟩ | ⟨rfl, rfl, rfl⟩ := advanceLedger_end rfl hc he
      · exact .broken h' nonce .succeeds write.fate call.finalFate
          ((.anchor (h.state.pending scheme call.nextLedger nonce), .succeeds) :: writes) (List.cons_ne_nil _ _)
          (List.cons_prefix_cons.mpr ⟨rfl, hpre⟩) hb
      · exact .done nonce hc
    · have hend : r = r₁ ∧ w' = w₁ := by
        obtain ⟨rfl, rfl⟩ | ⟨rfl | rfl, rfl⟩ := hb <;> cases he <;> exact ⟨rfl, rfl⟩
      obtain ⟨rfl, rfl⟩ := hend
      exact .broken h' nonce call.intentFate .succeeds .succeeds
        [(.anchor (h.state.pending scheme call.nextLedger nonce), call.intentFate)] (List.cons_ne_nil _ _) ⟨_, rfl⟩ hb

theorem advanceLocked_end (he : advanceLocked scheme call h w = (r, h', w')) :
    AdvanceEnd scheme call.nextLedger h w r h' w' := by
  unfold advanceLocked at he
  split at he
  · rename_i ha
    cases he
    have : h = { h with attempted := true } := by rw [← ha]
    rw [this]
    exact .refused _
  · simp only at he
    split at he
    · cases he; exact .refused _
    · split at he
      · cases he; exact .refused _
      · split at he
        · rename_i hd
          cases he; exact .same hd
        · split at he
          · cases he; exact .refused _
          · rename_i write _
            split at he
            · cases he; exact .refused _
            · split at he
              · cases he; exact .refused _
              · rename_i nonce _
                exact advanceIntent_end he

end

/-! ## One transaction -/

section
variable {call : AdvanceCall} {h h' : AnchorHeld D} {w w' : AnchorWorld D}
  {r : Returned PolicyAuthorityAnchorError} {s : PolicyAuthorityAnchorState D}

omit [DecidableEq D] in
theorem grows_attempts {next : List UInt8} {nonce : String} {f₁ f₂ f₃ : WriteFate}
    {writes : List (DiskWrite D × WriteFate)} (hr : w.Recorded) (hs : w.disk.anchor = some s)
    (hp : writes <+: advanceWrites scheme s next nonce f₁ f₂ f₃) : w.Grows (w.attempts writes) := by
  have h₁ := AnchorWorld.grows_anchor (w := w) hr
    (show AnchorWorld.Follows _ (s.pending scheme next nonce) by rw [hs]; exact Or.inl ⟨rfl, rfl⟩) f₁
  have h₂ := h₁.trans (AnchorWorld.grows_ledger h₁.1 next f₂)
  have h₃ : w.Grows (w.attempts (advanceWrites scheme s next nonce f₁ f₂ f₃)) := by
    obtain ⟨t, ht, hg⟩ : ∃ t, ((w.attempt (.anchor (s.pending scheme next nonce)) f₁).attempt
        (.ledger next) f₂).disk.anchor = some t ∧ t.generation = s.generation := by
      rw [AnchorWorld.anchor_attempt_ledger, AnchorWorld.anchor_attempt_anchor, hs]
      cases f₁.took
      · exact ⟨s, rfl, rfl⟩
      · exact ⟨_, rfl, rfl⟩
    have hc : AnchorWorld.Follows (some t) (s.committed scheme next) := Or.inr ⟨rfl, by rw [hg]; rfl⟩
    exact h₂.trans (AnchorWorld.grows_anchor h₂.1 (by rw [ht]; exact hc) f₃)
  unfold advanceWrites at hp
  rcases writes with _ | ⟨a, _ | ⟨b, _ | ⟨c, rest⟩⟩⟩
  · exact AnchorWorld.Grows.refl hr
  · simp only [List.cons_prefix_cons] at hp
    rw [hp.1]; exact h₁
  · simp only [List.cons_prefix_cons] at hp
    rw [hp.1, hp.2.1]; exact h₂
  · simp only [List.cons_prefix_cons, List.prefix_nil] at hp
    obtain ⟨rfl, rfl, rfl, rfl⟩ := hp
    exact h₃

/-- While no failure is recorded, the held state is the record on the disk. -/
def Live (h : AnchorHeld D) (w : AnchorWorld D) : Prop :=
  h.failure = none → w.poisoned = false → w.disk.anchor = some h.state ∧ h.state.intent = none

omit [DecidableEq D] in
theorem Grows.of_broken {w₀ : AnchorWorld D} (hg : w.Grows w₀) (hb : BrokenAt w₀ r w') : w.Grows w' := by
  obtain ⟨_, rfl⟩ | ⟨_, rfl⟩ := hb
  · exact hg.poison
  · exact hg

theorem advance_grows (hr : w.Recorded) (hl : Live h w) (he : advance scheme call h w = (r, h', w')) :
    w.Grows w' ∧ (r = .stopped ∨ Live h' w') := by
  unfold advance at he
  split at he
  · cases he
    exact ⟨.refl hr, Or.inr hl⟩
  · rename_i hn
    simp only [Bool.or_eq_true, not_or, Bool.not_eq_true, Option.isSome_eq_false_iff, Option.isNone_iff_eq_none] at hn
    obtain ⟨hs, hi⟩ := hl hn.1.2 hn.2
    cases hlock : advanceLocked scheme call h w with
    | mk r₁ p =>
      obtain ⟨h₁, w₁⟩ := p
      rw [hlock] at he
      have hend := advanceLocked_end hlock
      have hg : w.Grows w₁ := by
        cases hend with
        | same => exact .refl hr
        | refused e => exact .refl hr
        | broken _ nonce f₁ f₂ f₃ writes _ hp hb => exact Grows.of_broken (grows_attempts hr hs hp) hb
        | done nonce _ => exact grows_attempts hr hs (List.prefix_refl _)
      cases r₁ with
      | nil =>
        cases he
        refine ⟨hg, Or.inr fun hf hp => ?_⟩
        cases hend with
        | same => exact ⟨hs, hi⟩
        | broken _ _ _ _ _ _ _ _ hb => obtain ⟨hb, _⟩ | ⟨hb | hb, _⟩ := hb <;> cases hb
        | done nonce _ => exact ⟨rfl, rfl⟩
      | error e =>
        simp only at he
        split at he <;> cases he <;> exact ⟨hg, Or.inr fun hf => by cases hf⟩
      | panicked => cases he; exact ⟨hg.poison, Or.inr fun hf => by cases hf⟩
      | stopped => cases he; exact ⟨hg, Or.inl rfl⟩

theorem useScript_grows {ε : Type} {ending r : Returned ε} {calls : List AdvanceCall} (hr : w.Recorded)
    (hl : Live h w) (he : useScript scheme ending calls h w = (r, h', w')) : w.Grows w' := by
  induction calls generalizing h w with
  | nil => cases he; exact .refl hr
  | cons call rest ih =>
    unfold useScript at he
    cases ha : advance scheme call h w with
    | mk r₁ p =>
      obtain ⟨h₁, w₁⟩ := p
      rw [ha] at he
      obtain ⟨hg, hs⟩ := advance_grows hr hl ha
      by_cases hst : r₁ = .stopped
      · subst hst; cases he; exact hg
      · refine hg.trans (ih hg.1 (hs.resolve_left hst) ?_)
        cases r₁ with
        | stopped => exact absurd rfl hst
        | _ => exact he

variable {identity : PolicyAuthorityAnchorIdentity}

theorem admitCurrent_ok {call : CurrentCall} {ledger : List UInt8}
    (he : admitCurrent scheme identity call ledger w = .ok h) :
    w.poisoned = false ∧ w.disk.anchor = some h.state ∧ h.state.intent = none ∧
      scheme.digestOf ledger = h.state.ledgerDigest ∧
      validatePolicyAuthorityAnchorState scheme h.state = true ∧ h = ⟨h.state, true, false, false, none⟩ := by
  unfold admitCurrent at he
  split at he
  · cases he
  · split at he
    · cases he
    · rename_i hopen
      have hpoison : w.poisoned = false := by
        unfold openAnchor at hopen
        cases hw : w.poisoned with
        | false => rfl
        | true => rw [hw] at hopen; split at hopen <;> cases hopen
      split at he
      · cases he
      · rename_i state hs
        split at he
        · cases he
        · split at he
          · cases he
          · rename_i hc
            split at he
            · cases he
            · cases he
              unfold classifyPolicyAuthorityAnchor at hc
              split at hc
              · cases hc
              · rename_i hv
                split at hc
                · cases hc
                · split at hc
                  · cases hc
                  · split at hc
                    · split at hc
                      · cases hc
                      · split at hc <;> cases hc
                    · rename_i hi
                      split at hc
                      · rename_i hd
                        exact ⟨hpoison, hs, hi, hd, by simpa using hv, rfl⟩
                      · cases hc
          · split at he <;> cases he

theorem withCurrent_grows {ε : Type} {call : CurrentCall} {ledger : List UInt8} {ending : Returned ε}
    {calls : List AdvanceCall} (hr : w.Recorded) :
    w.Grows (withCurrent scheme identity call ledger (useScript scheme ending calls) w).2 := by
  unfold withCurrent
  cases ha : admitCurrent scheme identity call ledger w with
  | error e => exact .refl hr
  | ok held =>
    obtain ⟨_, hs, hi, _⟩ := admitCurrent_ok ha
    cases hu : useScript scheme ending calls held w with
    | mk r₁ p =>
      obtain ⟨h₁, w₁⟩ := p
      have hg : w.Grows w₁ := useScript_grows hr (fun _ _ => ⟨hs, hi⟩) hu
      have leave : ∀ refused, w.Grows (leaveCurrent call refused h₁ w₁).2 := by
        intro refused
        unfold leaveCurrent
        repeat' split
        all_goals exact hg
      cases r₁ with
      | nil => simp only [hu]; exact leave false
      | error e => simp only [hu]; exact leave true
      | panicked =>
        simp only [hu]
        split
        · exact hg.poison
        · exact hg
      | stopped => simp only [hu]; exact hg

theorem persist_grows {fate : WriteFate} {state : PolicyAuthorityAnchorState D} (hr : w.Recorded)
    (hf : AnchorWorld.Follows w.disk.anchor state) (hp : persist scheme fate state w = (r, w')) : w.Grows w' := by
  obtain ⟨_, _, rfl⟩ | ⟨_, ⟨_, _, rfl⟩ | hb⟩ := persist_end hp
  · exact .refl hr
  · exact AnchorWorld.grows_anchor hr hf _
  · exact Grows.of_broken (AnchorWorld.grows_anchor hr hf fate) hb

theorem enroll_grows {call : EnrollCall} {ledger : List UInt8} (hr : w.Recorded) :
    w.Grows (enroll scheme identity call ledger w).2 := by
  unfold enroll
  split
  · exact .refl hr
  · split
    · exact .refl hr
    · split
      · exact .refl hr
      · split
        · exact .refl hr
        · rename_i hnone
          split
          · exact .refl hr
          · rw [Option.not_isSome_iff_eq_none] at hnone
            split
            all_goals rename_i hp
            all_goals have hg := persist_grows hr (by rw [hnone]; exact ⟨rfl, rfl⟩) hp
            · split
              · exact hg.poison
              · exact hg
            · exact hg

end

/-! ## Runs -/

section
variable {w : AnchorWorld D} {s : PolicyAuthorityAnchorState D} (identity : PolicyAuthorityAnchorIdentity)

theorem anchorStep_grows (hr : w.Recorded) (a : AnchorAction) : w.Grows (anchorStep scheme identity w a) := by
  cases a with
  | enroll call => exact enroll_grows hr
  | transact call advances ending => exact withCurrent_grows hr
  | restart => exact .refl hr
  | replaceLedger raw => exact .refl hr

theorem run_grows (hr : w.Recorded) (as : List AnchorAction) : w.Grows (run (anchorStep scheme identity) w as) := by
  induction as generalizing w with
  | nil => exact .refl hr
  | cons a rest ih =>
    have hg := @anchorStep_grows _ _ scheme _ identity hr a
    exact hg.trans (ih hg.1)

omit [DecidableEq D] in
theorem recorded_start (ledger : List UInt8) : (anchorStart ledger : AnchorWorld D).Recorded := rfl

theorem admitCurrent_intent {call : CurrentCall} {ledger : List UInt8} (hs : w.disk.anchor = some s)
    (hi : s.intent.isSome) : ∃ e, admitCurrent scheme identity call ledger w = .error e := by
  cases ha : admitCurrent scheme identity call ledger w with
  | error e => exact ⟨e, rfl⟩
  | ok h =>
    obtain ⟨_, hs', hi', _⟩ := admitCurrent_ok ha
    rw [hs] at hs'
    cases hs'
    rw [hi'] at hi
    cases hi

/-- Only the ledger of a disk with an intent can still change, and only from outside. -/
theorem anchorStep_intent (hs : w.disk.anchor = some s) (hi : s.intent.isSome) (a : AnchorAction) :
    (anchorStep scheme identity w a).disk.anchor = some s := by
  cases a with
  | enroll call =>
    simp only [anchorStep, enroll, hs, Option.isSome_some, if_true]
    repeat' split
    all_goals exact hs
  | transact call advances ending =>
    obtain ⟨e, he⟩ := @admitCurrent_intent _ _ scheme _ _ identity call w.disk.ledger hs hi
    simp only [anchorStep, withCurrent, he]
    exact hs
  | restart => exact hs
  | replaceLedger raw => exact hs

/-- Rollback protection, over every run from a disk without an anchor. -/
theorem anchor_admits_only_the_last_finished_ledger (hinj : Function.Injective scheme.digestOf)
    (ledger : List UInt8) (before after : List AnchorAction) :
    let w := run (anchorStep scheme identity) (anchorStart ledger) before
    let w' := run (anchorStep scheme identity) w after
    (∀ call held, admitCurrent scheme identity call w.disk.ledger w = .ok held →
      w.disk.anchor = some held.state ∧ held.state.intent = none ∧ w.finals.getLast? = some held.state ∧
        ∀ raw, scheme.digestOf raw = held.state.ledgerDigest ↔ raw = w.disk.ledger) ∧
    (w.generation = w.finals.length ∧ w.finals <+: w'.finals ∧
      w'.generation = w.generation + (w'.finals.length - w.finals.length)) ∧
    ∀ s, w.disk.anchor = some s → s.intent.isSome →
      w'.disk.anchor = some s ∧ ∀ call, ∃ e, admitCurrent scheme identity call w'.disk.ledger w' = .error e := by
  intro w w'
  have hw : w.Recorded := (run_grows identity (recorded_start ledger) before).1
  have hg : w.Grows w' := run_grows identity hw after
  refine ⟨?_, ?_, ?_⟩
  · intro call held ha
    obtain ⟨_, hs, hi, hd, _⟩ := admitCurrent_ok ha
    have hlast := ((AnchorWorld.recorded_some hs).mp hw).1
    rw [PolicyAuthorityAnchorState.settled_of_none hi] at hlast
    refine ⟨hs, hi, hlast, fun raw => ?_⟩
    rw [← hd]
    exact hinj.eq_iff
  · have h := hw.generation_eq
    have h' := hg.1.generation_eq
    have hl := hg.2.length_le
    exact ⟨h, hg.2, by omega⟩
  · intro s hs hi
    have hs' : w'.disk.anchor = some s :=
      run_invariant (P := fun w : AnchorWorld D => w.disk.anchor = some s)
        (fun _ a h => anchorStep_intent identity h hi a) hs after
    exact ⟨hs', fun call => admitCurrent_intent identity hs' hi⟩

end

end

end

/-! ## An enrolled ledger -/

namespace Sample

/-- A digest that forgets nothing. -/
def plainScheme : DigestScheme (List UInt8) := ⟨id, fun _ => true, fun _ => rfl⟩

def anchorIdentity : PolicyAuthorityAnchorIdentity := ⟨"desk-1", "policies-1"⟩

def enrollCall : EnrollCall := ⟨false, .opens, false, true, false, .succeeds, false⟩

def currentCall : CurrentCall := ⟨false, .opens, false, true, true, true, false⟩

/-- A write of the ledger whose final record is lost to a crash. -/
def lostAdvance : AdvanceCall where
  nextLedger := [2]
  ready := true
  nonce := some (String.ofList (List.replicate 48 'e'))
  intentFate := .succeeds
  intentHeld := true
  durableWrite := some ⟨.succeeds, false⟩
  ledgerHeld := true
  finalFate := .stops false
  finalHeld := true

end Sample

theorem anchor_admits_only_the_last_finished_ledger_sample :
    let step := anchorStep Sample.plainScheme Sample.anchorIdentity
    let enrolled := run step (anchorStart [1]) [.enroll Sample.enrollCall]
    let crashed := run step enrolled [.transact Sample.currentCall [Sample.lostAdvance] .nil]
    (∃ held, admitCurrent Sample.plainScheme Sample.anchorIdentity Sample.currentCall [1] enrolled = .ok held ∧
      enrolled.finals.getLast? = some held.state) ∧
    crashed.disk.ledger = [2] ∧
    ∀ call, ∃ e, admitCurrent Sample.plainScheme Sample.anchorIdentity call [2] crashed = .error e := by
  intro step enrolled crashed
  have main := fun before after => @anchor_admits_only_the_last_finished_ledger _ _ Sample.plainScheme
    Sample.anchorIdentity Function.injective_id [1] before after
  refine ⟨⟨_, rfl, ((main [.enroll Sample.enrollCall] []).1 Sample.currentCall _ rfl).2.2.1⟩, rfl, ?_⟩
  exact ((main [.enroll Sample.enrollCall, .transact Sample.currentCall [Sample.lostAdvance] .nil] []).2.2 _ rfl rfl).2

end Desk
