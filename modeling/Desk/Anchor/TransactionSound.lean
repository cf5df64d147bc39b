import Desk.Anchor.AnchorSound
import Desk.Anchor.Transaction
import Desk.Ledger.Valid
import Mathlib.Data.List.Induction

/-!
# Outcomes of an anchored transaction

What a transaction answers, against what it did to the disk.
-/

namespace Desk

section
variable {D : Type} [DecidableEq D] {scheme : DigestScheme D} {identity : PolicyAuthorityAnchorIdentity}
  {call : TransactionCall} {prepared : Except GoError (Option (List UInt8))} {h h' : AnchorHeld D}
  {w w' : AnchorWorld D} {s : PolicyAuthorityAnchorState D}

/-- Every way the function under `WithCurrent` leaves a freshly admitted anchor. -/
inductive UseEnd (scheme : DigestScheme D) (prepared : Except GoError (Option (List UInt8)))
    (s : PolicyAuthorityAnchorState D) (w : AnchorWorld D) :
    Returned GoError → AnchorHeld D → AnchorWorld D → Prop where
  | precommit {h : AnchorHeld D} (e : GoError) : prepared = .error e → h.state = s → h.advanced = false →
      h.failure = none → UseEnd scheme prepared s w (.error e) h w
  | same {h : AnchorHeld D} :
      (prepared = .ok none ∨
        ∃ next, prepared = .ok (some next) ∧ scheme.digestOf next = s.ledgerDigest) →
      h.state = s → h.advanced = false → h.failure = none → UseEnd scheme prepared s w .nil h w
  | refused {h : AnchorHeld D} (next : List UInt8) (e : PolicyAuthorityAnchorError) : prepared = .ok (some next) →
      h.failure = some e → UseEnd scheme prepared s w (.error (.anchor e)) h w
  | doubt {h : AnchorHeld D} {w' : AnchorWorld D} (next : List UInt8) (e : PolicyAuthorityAnchorError) :
      prepared = .ok (some next) → h.failure = some e → w'.poisoned = true →
      UseEnd scheme prepared s w (.error (.anchor e)) h w'
  | lost {h : AnchorHeld D} {w' : AnchorWorld D} {r : Returned GoError} : r = .panicked ∨ r = .stopped →
      UseEnd scheme prepared s w r h w'
  | done {h : AnchorHeld D} (next : List UInt8) (nonce : String) : prepared = .ok (some next) →
      h.state = s.committed scheme next → h.advanced = true → h.failure = none →
      UseEnd scheme prepared s w .nil h
        (w.attempts (advanceWrites scheme s next nonce .succeeds .succeeds .succeeds))

theorem anchoredUse_end {r : Returned GoError} (hp : w.poisoned = false) (hh : h = ⟨s, true, false, false, none⟩)
    (he : anchoredUse scheme call prepared h w = (r, h', w')) : UseEnd scheme prepared s w r h' w' := by
  subst hh
  unfold anchoredUse at he
  cases prepared with
  | error e => cases he; exact .precommit e rfl rfl rfl rfl
  | ok o =>
    cases o with
    | none => cases he; exact .same (Or.inl rfl) rfl rfl rfl
    | some next =>
      simp only [advance, hp, Bool.not_true, Option.isSome_none, Bool.or_self, Bool.false_eq_true, if_false] at he
      cases hlock : advanceLocked scheme ⟨call.conditions, next, some ⟨call.ledgerFate, false⟩⟩
          ⟨s, true, false, false, none⟩ w with
      | mk r₁ p =>
        obtain ⟨h₁, w₁⟩ := p
        rw [hlock] at he
        cases advanceLocked_end hlock with
        | same hd => cases he; exact .same (Or.inr ⟨next, rfl, hd⟩) rfl rfl rfl
        | refused e => cases he; exact .refused next e rfl rfl
        | done nonce _ => cases he; exact .done next nonce rfl rfl rfl rfl
        | broken _ nonce f₁ f₂ f₃ writes _ _ hb =>
          obtain ⟨rfl, rfl⟩ | ⟨rfl | rfl, rfl⟩ := hb
          · simp only at he
            split at he <;> cases he <;> exact .doubt next _ rfl rfl rfl
          · cases he; exact .lost (Or.inl rfl)
          · cases he; exact .lost (Or.inr rfl)

/-- Every outcome of a transaction whose anchor was asked: `prepared` is what its function came to. -/
inductive TransactionEnd (scheme : DigestScheme D) (prepared : Except GoError (Option (List UInt8)))
    (w : AnchorWorld D) : Returned GoError → AnchorWorld D → Prop where
  | unwritten : (prepared = .ok none ∨ ∃ next, prepared = .ok (some next) ∧
      scheme.digestOf next = scheme.digestOf w.disk.ledger) → TransactionEnd scheme prepared w .nil w
  | precommit (e : GoError) : prepared = .error e → TransactionEnd scheme prepared w (.error e) w
  | uncertain {w' : AnchorWorld D} (f : PolicyFailure) : f.uncertain = true → w' = w ∨ w'.poisoned = true →
      TransactionEnd scheme prepared w (.error (.refusal f)) w'
  | lost {w' : AnchorWorld D} {r : Returned GoError} : r = .panicked ∨ r = .stopped →
      TransactionEnd scheme prepared w r w'
  | done (next : List UInt8) (s : PolicyAuthorityAnchorState D) (nonce : String) : prepared = .ok (some next) →
      w.disk.anchor = some s →
      TransactionEnd scheme prepared w .nil
        (w.attempts (advanceWrites scheme s next nonce .succeeds .succeeds .succeeds))

omit [DecidableEq D] in
theorem anchoredReply_error {e : PolicyAuthorityAnchorError} {r : Returned GoError} {w₁ : AnchorWorld D}
    (hw : w₁ = w ∨ w₁.poisoned = true) (hn : ∀ precommit, prepared = .error precommit → e.code ≠ .callbackRefused)
    (he : anchoredReply prepared (.error e, w₁) = (r, w')) : TransactionEnd scheme prepared w r w' := by
  unfold anchoredReply at he
  simp only at he
  cases he
  exact .uncertain _ rfl hw

theorem admitCurrent_code {e : PolicyAuthorityAnchorError} {current : CurrentCall} {ledger : List UInt8}
    (he : admitCurrent scheme identity current ledger w = .error e) : e.code ≠ .callbackRefused := by
  have hopen : ∀ a b c, openAnchor a b c w = some e → e.code ≠ .callbackRefused := by
    intro a b c ho
    unfold openAnchor at ho
    repeat' split at ho
    all_goals cases ho
    all_goals intro hc; cases hc
  have hclass : ∀ s d, classifyPolicyAuthorityAnchor scheme s identity d = .error e → e.code ≠ .callbackRefused := by
    intro s d ho
    unfold classifyPolicyAuthorityAnchor at ho
    repeat' split at ho
    all_goals cases ho
    all_goals intro hc; cases hc
  unfold admitCurrent at he
  split at he
  · cases he; intro hc; cases hc
  · split at he
    · rename_i ho
      cases he; exact hopen _ _ _ ho
    · split at he
      · cases he; intro hc; cases hc
      · split at he
        · cases he; intro hc; cases hc
        · split at he
          · rename_i ho
            cases he; exact hclass _ _ ho
          all_goals split at he <;> cases he <;> intro hc <;> cases hc

section
omit [DecidableEq D]
variable {current : CurrentCall} {refused : Bool}

theorem leaveCurrent_custody (hc : current.custodyAfter = false) :
    leaveCurrent current refused h w = (.error (policyAuthorityAnchorRefusal .uncertain), w.poison) := by
  unfold leaveCurrent
  rw [hc]
  rfl

theorem leaveCurrent_failed {e : PolicyAuthorityAnchorError} (hc : current.custodyAfter = true)
    (hf : h.failure = some e) : leaveCurrent current refused h w = (.error e, w) := by
  unfold leaveCurrent
  rw [hc, hf]
  rfl

theorem leaveCurrent_held (hc : current.custodyAfter = true) (hf : h.failure = none) (hi : h.state.intent = none)
    (hp : w.poisoned = false) : leaveCurrent current refused h w =
      if refused || current.cancelledAfter then
        if h.advanced then (.error (policyAuthorityAnchorRefusal .uncertain), w.poison)
        else (.error (policyAuthorityAnchorRefusal .callbackRefused), w)
      else (.nil, w) := by
  unfold leaveCurrent
  rw [hc, hf, hi, hp]
  rfl

end

theorem withCurrent_end {r : Returned GoError} {current : CurrentCall}
    (he : anchoredReply prepared (withCurrent scheme identity current w.disk.ledger
      (anchoredUse scheme call prepared) w) = (r, w')) : TransactionEnd scheme prepared w r w' := by
  have unsure : ∀ precommit, prepared = .error precommit →
      (policyAuthorityAnchorRefusal .uncertain).code ≠ .callbackRefused := fun _ _ hc => by cases hc
  unfold withCurrent at he
  cases ha : admitCurrent scheme identity current w.disk.ledger w with
  | error e =>
    rw [ha] at he
    exact anchoredReply_error (Or.inl rfl) (fun _ _ => admitCurrent_code ha) he
  | ok held =>
    obtain ⟨hp, hs, hi, hd, _, hheld⟩ := admitCurrent_ok ha
    cases hu : anchoredUse scheme call prepared held w with
    | mk r₁ p =>
      obtain ⟨h₁, w₁⟩ := p
      have hend := anchoredUse_end hp hheld hu
      simp only [ha, hu] at he
      by_cases hc : current.custodyAfter = true
      · cases hend with
        | precommit e hpre hst hadv hf =>
          dsimp only at he
          rw [leaveCurrent_held hc hf (by rw [hst]; exact hi) hp, hadv, hpre] at he
          cases he
          exact .precommit e hpre
        | same hpre hst hadv hf =>
          dsimp only at he
          rw [leaveCurrent_held hc hf (by rw [hst]; exact hi) hp, hadv] at he
          by_cases hx : current.cancelledAfter = true
          · rw [hx] at he
            refine anchoredReply_error (Or.inl rfl) (fun e hpe => ?_) he
            obtain hpre | ⟨_, hpre, _⟩ := hpre <;> rw [hpre] at hpe <;> cases hpe
          · rw [Bool.not_eq_true] at hx
            rw [hx] at he
            cases he
            refine .unwritten (hpre.imp id fun ⟨next, hn, hdn⟩ => ⟨next, hn, hdn.trans hd.symm⟩)
        | refused next e hpre hf =>
          dsimp only at he
          rw [leaveCurrent_failed hc hf] at he
          exact anchoredReply_error (Or.inl rfl) (fun e hpe => by rw [hpre] at hpe; cases hpe) he
        | doubt next e hpre hf hpo =>
          dsimp only at he
          rw [leaveCurrent_failed hc hf] at he
          exact anchoredReply_error (Or.inr hpo) (fun e hpe => by rw [hpre] at hpe; cases hpe) he
        | lost hr =>
          obtain rfl | rfl := hr
          · cases he; exact .lost (Or.inl rfl)
          · cases he; exact .lost (Or.inr rfl)
        | done next nonce hpre hst hadv hf =>
          have hp' : (w.attempts (advanceWrites scheme held.state next nonce .succeeds .succeeds .succeeds)).poisoned =
              false := by rw [AnchorWorld.poisoned_attempts, hp]
          dsimp only at he
          rw [leaveCurrent_held hc hf (by rw [hst]; rfl) hp', hadv] at he
          by_cases hx : current.cancelledAfter = true
          · rw [hx] at he
            exact anchoredReply_error (Or.inr rfl) unsure he
          · rw [Bool.not_eq_true] at hx
            rw [hx] at he
            cases he
            exact .done next held.state nonce hpre hs
      · rw [Bool.not_eq_true] at hc
        have poisoned : ∀ refused, anchoredReply prepared (leaveCurrent current refused h₁ w₁) = (r, w') →
            TransactionEnd scheme prepared w r w' := by
          intro refused he
          rw [leaveCurrent_custody hc] at he
          exact anchoredReply_error (Or.inr rfl) unsure he
        cases r₁ with
        | nil => exact poisoned _ he
        | error e => exact poisoned _ he
        | panicked => cases he; exact .lost (Or.inl rfl)
        | stopped => cases he; exact .lost (Or.inr rfl)

theorem anchoredTransaction_end {decode : List UInt8 → Option PolicyLedger} {write : Bool} {use : LedgerUse}
    {r : Returned GoError} (he : anchoredTransaction scheme identity decode write use call w = (r, w')) :
    (∃ f, r = .error (.refusal f) ∧ f.uncertain = true ∧ w' = w) ∨
      ∃ ledger, decode w.disk.ledger = some ledger ∧
        TransactionEnd scheme (nextLedger write call.cancelledBeforeWrite use ledger) w r w' := by
  unfold anchoredTransaction at he
  simp only at he
  iterate 5
    split at he
    · cases he; exact Or.inl ⟨_, rfl, rfl, rfl⟩
  split at he
  · cases he; exact Or.inl ⟨_, rfl, rfl, rfl⟩
  · rename_i ledger hd
    exact Or.inr ⟨ledger, hd, withCurrent_end he⟩

/-- A poisoned anchor refuses without asking anyone. -/
theorem anchoredTransaction_poisoned (decode : List UInt8 → Option PolicyLedger) (write : Bool) (use : LedgerUse)
    (call : TransactionCall) (hp : w.poisoned = true) :
    ∃ f, anchoredTransaction scheme identity decode write use call w = (.error (.refusal f), w) ∧
      f.uncertain = true := by
  unfold anchoredTransaction
  simp only
  iterate 5
    split
    · exact ⟨_, rfl, rfl⟩
  split
  · exact ⟨_, rfl, rfl⟩
  · rename_i ledger hd
    cases ha : admitCurrent scheme identity call.current w.disk.ledger w with
    | ok held =>
      rw [(admitCurrent_ok ha).1] at hp
      cases hp
    | error e =>
      unfold withCurrent
      rw [ha]
      have hn : ∀ precommit, nextLedger write call.cancelledBeforeWrite use ledger = .error precommit →
          e.code ≠ .callbackRefused := fun _ _ => admitCurrent_code ha
      unfold anchoredReply
      simp only
      exact ⟨_, rfl, rfl⟩

theorem nextLedger_none {cancelled : Bool} {use : LedgerUse} {ledger : PolicyLedger}
    (he : nextLedger true cancelled use ledger = .ok none) : (use ledger).1 = .ok false := by
  unfold nextLedger at he
  split at he
  · cases he
  · rename_i changed next hu
    cases changed with
    | false => rw [hu]
    | true =>
      rw [hu]
      simp only [Bool.not_true, Bool.or_self, Bool.false_eq_true, if_false] at he
      repeat' split at he
      all_goals cases he

theorem nextLedger_some {cancelled : Bool} {use : LedgerUse} {ledger : PolicyLedger} {raw : List UInt8}
    (he : nextLedger true cancelled use ledger = .ok (some raw)) :
    (use ledger).1 = .ok true ∧ validatePolicyLedger (use ledger).2 = true ∧ raw = (use ledger).2.toJson.marshal := by
  unfold nextLedger at he
  split at he
  · cases he
  · rename_i changed next hu
    rw [hu]
    cases changed with
    | false => cases he
    | true =>
      simp only at he
      split at he
      · cases he
      · split at he
        · cases he
        · rename_i hv
          split at he
          · cases he
          · split at he
            · cases he
            · cases he; exact ⟨rfl, by simpa using hv, rfl⟩

omit [DecidableEq D] in
theorem anchoredReply_world (prepared : Except GoError (Option (List UInt8)))
    (p : Returned PolicyAuthorityAnchorError × AnchorWorld D) : (anchoredReply prepared p).2 = p.2 := by
  unfold anchoredReply
  split
  · rfl
  · simp only
    split <;> rfl
  · rfl
  · rfl

variable (scheme identity call w)

/-- What a writing transaction answers is true of the disk. -/
theorem anchoredTransaction_answers_truthfully (decode : List UInt8 → Option PolicyLedger) (use : LedgerUse) :
    let t := anchoredTransaction scheme identity decode true use call w
    (t.1 = .nil → ∃ ledger, decode w.disk.ledger = some ledger ∧
      (t.2 = w ∧ ((use ledger).1 = .ok false ∨ (use ledger).1 = .ok true ∧
          scheme.digestOf (use ledger).2.toJson.marshal = scheme.digestOf w.disk.ledger) ∨
        (use ledger).1 = .ok true ∧ t.2.disk.ledger = (use ledger).2.toJson.marshal ∧
          ∃ s s', w.disk.anchor = some s ∧ t.2.disk.anchor = some s' ∧ s'.intent = none ∧
            s'.ledgerDigest = scheme.digestOf (use ledger).2.toJson.marshal ∧
            s'.generation = s.generation + 1)) ∧
    (∀ e, t.1 = .error e → (∀ f, e = .refusal f → f.uncertain = false) →
      t.2 = w ∧ ∃ ledger, decode w.disk.ledger = some ledger ∧
        nextLedger true call.cancelledBeforeWrite use ledger = .error e) ∧
    (t.2.log ≠ w.log → t.1 ≠ .panicked → t.1 ≠ .stopped →
      (∃ s next nonce, t.2.log = w.log ++ advanceWrites scheme s next nonce .succeeds .succeeds .succeeds) ∨
        (∃ f, t.1 = .error (.refusal f) ∧ f.uncertain = true) ∧
          ∀ disk log write use call, ∃ f, f.uncertain = true ∧
            anchoredTransaction scheme identity decode write use call ⟨disk, t.2.poisoned, log⟩ =
              (.error (.refusal f), ⟨disk, t.2.poisoned, log⟩)) := by
  intro t
  have hend := anchoredTransaction_end (show anchoredTransaction scheme identity decode true use call w = (t.1, t.2) from rfl)
  obtain ⟨f, hr, hu, hw⟩ | ⟨ledger, hd, hend⟩ := hend
  · refine ⟨fun hn => ?_, fun e he hcertain => ?_, fun hlog => absurd (congrArg AnchorWorld.log hw) hlog⟩
    · rw [hr] at hn; cases hn
    · rw [hr] at he
      cases he
      rw [hcertain f rfl] at hu
      cases hu
  · generalize t.1 = r at hend
    generalize t.2 = w' at hend
    cases hend with
    | unwritten hpre =>
      refine ⟨fun _ => ⟨ledger, hd, Or.inl ⟨rfl, ?_⟩⟩, fun e he => ?_, fun hlog => absurd rfl hlog⟩
      · obtain hpre | ⟨next, hpre, hdig⟩ := hpre
        · exact Or.inl (nextLedger_none hpre)
        · obtain ⟨huse, _, rfl⟩ := nextLedger_some hpre
          exact Or.inr ⟨huse, hdig⟩
      · cases he
    | precommit e hpre =>
      refine ⟨fun hn => ?_, fun e' he _ => ?_, fun hlog => absurd rfl hlog⟩
      · cases hn
      · cases he
        exact ⟨rfl, ledger, hd, hpre⟩
    | uncertain f hu hw =>
      refine ⟨fun hn => ?_, fun e he hcertain => ?_, fun hlog _ _ => ?_⟩
      · cases hn
      · cases he
        rw [hcertain f rfl] at hu
        cases hu
      · have hp : w'.poisoned = true := hw.resolve_left fun h => hlog (by rw [h])
        refine Or.inr ⟨⟨f, rfl, hu⟩, fun disk log write use call => ?_⟩
        obtain ⟨f', he, hf'⟩ := @anchoredTransaction_poisoned _ _ scheme identity ⟨disk, w'.poisoned, log⟩ decode write use call hp
        exact ⟨f', hf', he⟩
    | lost hr =>
      refine ⟨fun hn => ?_, fun e he => ?_, fun _ h₁ h₂ => absurd hr (not_or.mpr ⟨h₁, h₂⟩)⟩
      · obtain rfl | rfl := hr <;> cases hn
      · obtain rfl | rfl := hr <;> cases he
    | done next s nonce hpre hs =>
      obtain ⟨huse, _, rfl⟩ := nextLedger_some hpre
      refine ⟨fun _ => ⟨ledger, hd, Or.inr ⟨huse, rfl, s, _, hs, rfl, rfl, rfl, rfl⟩⟩, fun e he => ?_,
        fun _ _ _ => Or.inl ⟨s, _, nonce, AnchorWorld.log_attempts _ _⟩⟩
      cases he

/-- A transaction is one step of the runs of the anchor. -/
theorem anchoredTransaction_step (decode : List UInt8 → Option PolicyLedger) (write : Bool) (use : LedgerUse) :
    (anchoredTransaction scheme identity decode write use call w).2 = w ∨ ∃ advances ending,
      (anchoredTransaction scheme identity decode write use call w).2 =
        anchorStep scheme identity w (.transact call.current advances ending) := by
  unfold anchoredTransaction
  simp only
  iterate 5
    split
    · exact Or.inl rfl
  split
  · exact Or.inl rfl
  · rename_i ledger hd
    rw [anchoredReply_world]
    right
    simp only [anchorStep, withCurrent]
    cases ha : admitCurrent scheme identity call.current w.disk.ledger w with
    | error e => exact ⟨[], .nil, rfl⟩
    | ok held =>
      simp only [anchoredUse]
      cases nextLedger write call.cancelledBeforeWrite use ledger with
      | error e => exact ⟨[], .error (), rfl⟩
      | ok o =>
        cases o with
        | none => exact ⟨[], .nil, rfl⟩
        | some next =>
          refine ⟨[⟨call.conditions, next, some ⟨call.ledgerFate, false⟩⟩],
            ((advance scheme ⟨call.conditions, next, some ⟨call.ledgerFate, false⟩⟩ held w).1.map fun _ => ()), ?_⟩
          simp only [useScript]
          cases advance scheme ⟨call.conditions, next, some ⟨call.ledgerFate, false⟩⟩ held w with
          | mk r p => cases r <;> rfl

end

/-! ## Runs of transactions -/

inductive PolicyAction where
  | enroll (call : EnrollCall)
  | transaction (write : Bool) (use : LedgerUse) (call : TransactionCall)
  | restart
  | replaceLedger (raw : List UInt8)

section
variable {D : Type} [DecidableEq D] (scheme : DigestScheme D) (identity : PolicyAuthorityAnchorIdentity)
  (decode : List UInt8 → Option PolicyLedger)

def policyStep (w : AnchorWorld D) : PolicyAction → AnchorWorld D
  | .enroll call => (enroll scheme identity call w.disk.ledger w).2
  | .transaction write use call => (anchoredTransaction scheme identity decode write use call w).2
  | .restart => { w with poisoned := false }
  | .replaceLedger raw => { w with disk := { w.disk with ledger := raw } }

/-- The record of an enrolment. -/
def PolicyAuthorityAnchorState.enrolled (ledger : List UInt8) : PolicyAuthorityAnchorState D :=
  ⟨1, identity.installationID, identity.workspaceID, 1, scheme.digestOf ledger, none⟩

/-- The records are of one serial execution of the actions: each is of the ledger that its transaction made from
the ledger the record before it is of. -/
inductive Serial : List PolicyAction → List (PolicyAuthorityAnchorState D) → Prop where
  | start : Serial [] []
  | unfinished {acts : List PolicyAction} {records : List (PolicyAuthorityAnchorState D)} (a : PolicyAction) :
      Serial acts records → Serial (acts ++ [a]) records
  | enrolled {acts : List PolicyAction} (call : EnrollCall) (ledger : List UInt8) : Serial acts [] →
      Serial (acts ++ [.enroll call]) [.enrolled scheme identity ledger]
  | committed {acts : List PolicyAction} {records : List (PolicyAuthorityAnchorState D)} (use : LedgerUse)
      (call : TransactionCall) (s : PolicyAuthorityAnchorState D) (read : List UInt8) (ledger : PolicyLedger) :
      Serial acts records → records.getLast? = some s → scheme.digestOf read = s.ledgerDigest →
      decode read = some ledger → (use ledger).1 = .ok true → validatePolicyLedger (use ledger).2 = true →
      Serial (acts ++ [.transaction true use call]) (records ++ [s.committed scheme (use ledger).2.toJson.marshal])

variable {scheme identity decode} {w w' : AnchorWorld D}

omit [DecidableEq D] in
/-- The writes of `Advance` that were made finish one record or none. -/
theorem finals_attempts {s : PolicyAuthorityAnchorState D} {next : List UInt8} {nonce : String} {f₁ f₂ f₃ : WriteFate}
    {writes : List (DiskWrite D × WriteFate)} (h : writes <+: advanceWrites scheme s next nonce f₁ f₂ f₃) :
    (w.attempts writes).finals = w.finals ∨ (w.attempts writes).finals = w.finals ++ [s.committed scheme next] := by
  rw [AnchorWorld.finals, AnchorWorld.log_attempts, List.filterMap_append]
  have hpending : finalOf (.anchor (s.pending scheme next nonce), f₁) = none := by
    simp [finalOf, PolicyAuthorityAnchorState.pending]
  have hfinal : finalOf (.anchor (s.committed scheme next), f₃) = none ∨
      finalOf (.anchor (s.committed scheme next), f₃) = some (s.committed scheme next) := by
    cases h : f₃.took <;> simp [finalOf, h, PolicyAuthorityAnchorState.committed]
  have hled : finalOf (D := D) (.ledger next, f₂) = none := rfl
  unfold advanceWrites at h
  rcases writes with _ | ⟨a, _ | ⟨b, _ | ⟨c, rest⟩⟩⟩
  · exact .inl (List.append_nil _)
  · simp only [List.cons_prefix_cons] at h
    simp [h.1, hpending, AnchorWorld.finals]
  · simp only [List.cons_prefix_cons] at h
    simp [h.1, h.2.1, hpending, hled, AnchorWorld.finals]
  · simp only [List.cons_prefix_cons, List.prefix_nil] at h
    obtain ⟨rfl, rfl, rfl, rfl⟩ := h
    obtain hfinal | hfinal := hfinal <;> simp [hpending, hled, hfinal, AnchorWorld.finals]

theorem advance_finals {call : AdvanceCall} {h h' : AnchorHeld D} {r : Returned PolicyAuthorityAnchorError}
    (he : advance scheme call h w = (r, h', w')) :
    w'.finals = w.finals ∨ w'.finals = w.finals ++ [h.state.committed scheme call.nextLedger] := by
  unfold advance at he
  split at he
  · cases he
    exact .inl rfl
  · cases hlock : advanceLocked scheme call h w with
    | mk r₁ p =>
      obtain ⟨h₁, w₁⟩ := p
      have hfin : w₁.finals = w.finals ∨ w₁.finals = w.finals ++ [h.state.committed scheme call.nextLedger] := by
        cases advanceLocked_end hlock with
        | same => exact .inl rfl
        | refused => exact .inl rfl
        | broken _ nonce _ _ _ writes _ hpre hb =>
          obtain ⟨_, rfl⟩ | ⟨_, rfl⟩ := hb
          · exact finals_attempts hpre
          · exact finals_attempts hpre
        | done nonce _ => exact finals_attempts (List.prefix_refl _)
      rw [hlock] at he
      -- the end of `Advance` may poison the anchor, which finishes nothing
      cases r₁ with
      | error e =>
        dsimp only at he
        split at he <;> cases he <;> exact hfin
      | _ => cases he; exact hfin

omit [DecidableEq D] in
theorem leaveCurrent_finals (current : CurrentCall) (refused : Bool) (h : AnchorHeld D) (w : AnchorWorld D) :
    (leaveCurrent current refused h w).2.finals = w.finals := by
  unfold leaveCurrent
  repeat' split
  all_goals rfl

variable (scheme identity decode)

theorem withCurrent_finals (call : TransactionCall) (prepared : Except GoError (Option (List UInt8))) :
    let w' := (withCurrent scheme identity call.current w.disk.ledger (anchoredUse scheme call prepared) w).2
    w'.finals = w.finals ∨ ∃ held next, admitCurrent scheme identity call.current w.disk.ledger w = .ok held ∧
      prepared = .ok (some next) ∧ w'.finals = w.finals ++ [held.state.committed scheme next] := by
  intro w'
  cases ha : admitCurrent scheme identity call.current w.disk.ledger w with
  | error e =>
    refine .inl ?_
    unfold w' withCurrent
    rw [ha]
  | ok held =>
    cases hu : anchoredUse scheme call prepared held w with
    | mk r p =>
      obtain ⟨h₁, w₁⟩ := p
      have hfin : w₁.finals = w.finals ∨ ∃ next, prepared = .ok (some next) ∧
          w₁.finals = w.finals ++ [held.state.committed scheme next] := by
        unfold anchoredUse at hu
        split at hu
        · cases hu
          exact .inl rfl
        · cases hu
          exact .inl rfl
        · next next =>
          cases hadv : advance scheme ⟨call.conditions, next, some ⟨call.ledgerFate, false⟩⟩ held w with
          | mk r' p =>
            rw [hadv] at hu
            cases hu
            exact (advance_finals hadv).imp id fun h => ⟨next, rfl, h⟩
      have hend : w'.finals = w₁.finals := by
        unfold w' withCurrent
        rw [ha]
        simp only [hu]
        cases r with
        | nil => exact leaveCurrent_finals _ _ _ _
        | error e => exact leaveCurrent_finals _ _ _ _
        | panicked =>
          dsimp only
          split <;> rfl
        | stopped => rfl
      rw [hend]
      exact hfin.imp id fun ⟨next, hn, h⟩ => ⟨held, next, rfl, hn, h⟩

/-- What a transaction finishes is the ledger its function made from the one that was current. -/
theorem anchoredTransaction_finals (hr : w.Recorded) (write : Bool) (use : LedgerUse) (call : TransactionCall) :
    let t := anchoredTransaction scheme identity decode write use call w
    t.2.finals = w.finals ∨ ∃ s ledger, w.finals.getLast? = some s ∧ scheme.digestOf w.disk.ledger = s.ledgerDigest ∧
      decode w.disk.ledger = some ledger ∧ write = true ∧ (use ledger).1 = .ok true ∧
      validatePolicyLedger (use ledger).2 = true ∧
      t.2.finals = w.finals ++ [s.committed scheme (use ledger).2.toJson.marshal] := by
  dsimp only
  unfold anchoredTransaction
  dsimp only
  iterate 5
    split
    · exact .inl rfl
  split
  · exact .inl rfl
  · next ledger hd =>
    rw [anchoredReply_world]
    obtain hsame | ⟨held, next, ha, hn, hfin⟩ := withCurrent_finals scheme identity call
      (nextLedger write call.cancelledBeforeWrite use ledger)
    · exact .inl hsame
    · obtain ⟨_, hs, hi, hdig, _⟩ := admitCurrent_ok ha
      have hlast := ((AnchorWorld.recorded_some hs).mp hr).1
      rw [PolicyAuthorityAnchorState.settled_of_none hi] at hlast
      cases write with
      | false =>
        unfold nextLedger at hn
        split at hn <;> cases hn
      | true =>
        obtain ⟨huse, hvalid, rfl⟩ := nextLedger_some hn
        exact .inr ⟨held.state, ledger, hlast, hdig, hd, rfl, huse, hvalid, hfin⟩

theorem enroll_finals (hr : w.Recorded) (call : EnrollCall) (ledger : List UInt8) :
    (enroll scheme identity call ledger w).2.finals = w.finals ∨
      w.finals = [] ∧ (enroll scheme identity call ledger w).2.finals = [.enrolled scheme identity ledger] := by
  unfold enroll
  split
  · exact .inl rfl
  split
  · exact .inl rfl
  split
  · exact .inl rfl
  split
  · exact .inl rfl
  split
  · exact .inl rfl
  · next hnone _ =>
    have hempty : w.finals = [] := by
      rw [Option.not_isSome_iff_eq_none] at hnone
      unfold AnchorWorld.Recorded at hr
      rw [hnone] at hr
      exact hr
    have hattempt : ∀ fate : WriteFate, let w' := w.attempt (.anchor (.enrolled scheme identity ledger)) fate
        w'.finals = w.finals ∨ w.finals = [] ∧ w'.finals = [.enrolled scheme identity ledger] := by
      intro fate
      dsimp only
      rw [AnchorWorld.finals_attempt, hempty]
      cases h : fate.took <;> simp [finalOf, h, PolicyAuthorityAnchorState.enrolled]
    generalize hp : persist scheme call.fate
      ⟨1, identity.installationID, identity.workspaceID, 1, scheme.digestOf ledger, none⟩ w = answer
    obtain ⟨r, w₁⟩ := answer
    have hfin : w₁.finals = w.finals ∨ w.finals = [] ∧ w₁.finals = [.enrolled scheme identity ledger] := by
      obtain ⟨_, _, rfl⟩ | ⟨_, ⟨_, _, rfl⟩ | ⟨_, rfl⟩ | ⟨_, rfl⟩⟩ := persist_end hp
      · exact .inl rfl
      · exact hattempt _
      · exact hattempt _
      · exact hattempt _
    cases r with
    | nil =>
      dsimp only
      split <;> exact hfin
    | _ => exact hfin

theorem policyStep_grows (hr : w.Recorded) (a : PolicyAction) : w.Grows (policyStep scheme identity decode w a) := by
  cases a with
  | enroll call => exact enroll_grows hr
  | transaction write use call =>
    obtain hsame | ⟨advances, ending, hstep⟩ := anchoredTransaction_step scheme identity call w decode write use
    · rw [policyStep, hsame]
      exact .refl hr
    · rw [policyStep, hstep]
      exact anchorStep_grows identity hr _
  | restart => exact .refl hr
  | replaceLedger raw => exact .refl hr

variable {scheme identity decode} in
theorem anchoredTransaction_admits {write : Bool} {use : LedgerUse} {call : TransactionCall}
    (h : (anchoredTransaction scheme identity decode write use call w).1 = .nil) :
    ∃ held, admitCurrent scheme identity call.current w.disk.ledger w = .ok held := by
  cases ha : admitCurrent scheme identity call.current w.disk.ledger w with
  | ok held => exact ⟨held, rfl⟩
  | error e =>
    unfold anchoredTransaction withCurrent at h
    rw [ha] at h
    dsimp only at h
    repeat' split at h
    all_goals first | cases h | skip
    unfold anchoredReply at h
    dsimp only at h
    split at h <;> cases h

/-- Whatever fails, stops or is changed behind the anchor's back, what was finished is one serial execution of the
transactions, and a transaction that answers `nil` read the last ledger of it and left its own as the last. -/
theorem transactions_are_serial (ledger : List UInt8) (acts : List PolicyAction) :
    let w := run (policyStep scheme identity decode) (anchorStart ledger) acts
    Serial scheme identity decode acts w.finals ∧
      ∀ write use call, (anchoredTransaction scheme identity decode write use call w).1 = .nil →
        ∃ s ledger, w.finals.getLast? = some s ∧ scheme.digestOf w.disk.ledger = s.ledgerDigest ∧
          decode w.disk.ledger = some ledger ∧ (write = true → (use ledger).1 = .ok true →
            ((anchoredTransaction scheme identity decode write use call w).2.finals.getLast?.map (·.ledgerDigest)) =
              some (scheme.digestOf (use ledger).2.toJson.marshal)) := by
  have hrecorded : ∀ acts, (run (policyStep scheme identity decode) (anchorStart ledger) acts).Recorded := fun acts =>
    run_invariant (P := AnchorWorld.Recorded) (fun _ a hr => (policyStep_grows scheme identity decode hr a).1) (recorded_start ledger) acts
  refine ⟨?_, fun write use call hnil => ?_⟩
  · induction acts using List.reverseRecOn with
    | nil => exact .start
    | append_singleton acts a ih =>
      have hr := hrecorded acts
      rw [run_append, run_cons, run_nil]
      generalize run (policyStep scheme identity decode) (anchorStart ledger) acts = w at hr ih
      cases a with
      | enroll call =>
        obtain hsame | ⟨hempty, hfin⟩ := enroll_finals scheme identity hr call w.disk.ledger
        · rw [policyStep, hsame]
          exact .unfinished _ ih
        · rw [policyStep, hfin]
          rw [hempty] at ih
          exact .enrolled call w.disk.ledger ih
      | transaction write use call =>
        obtain hsame | ⟨s, ledger, hlast, hdig, hd, rfl, huse, hvalid, hfin⟩ :=
          anchoredTransaction_finals scheme identity decode hr write use call
        · rw [policyStep, hsame]
          exact .unfinished _ ih
        · rw [policyStep, hfin]
          exact .committed use call s w.disk.ledger ledger ih hlast hdig hd huse hvalid
      | restart => exact .unfinished _ ih
      | replaceLedger raw => exact .unfinished _ ih
  · have hr := hrecorded acts
    generalize run (policyStep scheme identity decode) (anchorStart ledger) acts = w at hr hnil
    obtain ⟨held, ha⟩ := anchoredTransaction_admits hnil
    obtain ⟨_, hs, hi, hdig, _⟩ := admitCurrent_ok ha
    have hlast := ((AnchorWorld.recorded_some hs).mp hr).1
    rw [PolicyAuthorityAnchorState.settled_of_none hi] at hlast
    generalize ht : anchoredTransaction scheme identity decode write use call w = t at hnil
    obtain ⟨r, w'⟩ := t
    obtain ⟨f, hf, _⟩ | ⟨ledger, hd, hend⟩ := anchoredTransaction_end ht
    · rw [hf] at hnil
      cases hnil
    · refine ⟨held.state, ledger, hlast, hdig, hd, fun hwrite huse => ?_⟩
      subst hwrite
      dsimp only at hnil ⊢
      subst hnil
      cases hend with
      | unwritten hpre =>
        obtain hpre | ⟨next, hpre, hsame⟩ := hpre
        · rw [nextLedger_none hpre] at huse
          cases huse
        · obtain ⟨_, _, rfl⟩ := nextLedger_some hpre
          rw [hlast, hsame, hdig]
          rfl
      | lost hr => obtain hr | hr := hr <;> cases hr
      | done next s nonce hpre hs' =>
        obtain ⟨_, _, rfl⟩ := nextLedger_some hpre
        rw [AnchorWorld.finals, AnchorWorld.log_attempts]
        simp [advanceWrites, finalOf, WriteFate.took, PolicyAuthorityAnchorState.pending, PolicyAuthorityAnchorState.committed]

end

/-! ## Transactions on an anchored ledger -/

namespace Sample

def conditions : AdvanceConditions := ⟨true, some (token 'e'), .succeeds, true, true, .succeeds, true⟩

def transactionCall : TransactionCall := ⟨false, true, true, true, true, currentCall, false, conditions, .succeeds⟩

def emptyBytes : List UInt8 := emptyPolicyLedger.toJson.marshal

/-- The empty ledger, also where a line end follows it. -/
def decodeStored (raw : List UInt8) : Option PolicyLedger :=
  if raw = emptyBytes ∨ raw = emptyBytes ++ [10] then
    some { emptyPolicyLedger with authorityRevision := digestOf raw }
  else none

def anchoredWorld (stored : List UInt8) : AnchorWorld String :=
  ⟨⟨stored, some ⟨1, anchorIdentity.installationID, anchorIdentity.workspaceID, 7, digestOf stored, none⟩⟩, false, []⟩

/-- Reports a change, and makes none. -/
def touch : LedgerUse := fun ledger => (.ok true, ledger)

def transact (stored : List UInt8) : Returned GoError × AnchorWorld String :=
  anchoredTransaction sha256Scheme anchorIdentity decodeStored true touch transactionCall (anchoredWorld stored)

theorem ledger_anchoredWorld (stored : List UInt8) : (anchoredWorld stored).disk.ledger = stored := rfl

theorem generation_anchoredWorld {stored : List UInt8} {s : PolicyAuthorityAnchorState String}
    (hs : (anchoredWorld stored).disk.anchor = some s) : s.generation = 7 := by
  cases hs; rfl

end Sample

/-- A reported change that leaves the bytes as they were is answered `nil`, with nothing written. -/
theorem anchoredTransaction_unchanged_bytes :
    (Sample.touch emptyPolicyLedger).1 = .ok true ∧ (Sample.transact Sample.emptyBytes).1 = .nil ∧
      ¬ ∃ s s', (Sample.anchoredWorld Sample.emptyBytes).disk.anchor = some s ∧
        (Sample.transact Sample.emptyBytes).2.disk.anchor = some s' ∧ s'.generation = s.generation + 1 := by
  have hr : (Sample.transact Sample.emptyBytes).1 = .nil := by decide +kernel
  have hg : (Sample.transact Sample.emptyBytes).2.disk.anchor.map (·.generation) = some 7 := by decide +kernel
  refine ⟨rfl, hr, ?_⟩
  intro ⟨s, s', hs, hs', hgen⟩
  rw [hs', Option.map_some, hgen, Sample.generation_anchoredWorld hs] at hg
  cases hg

theorem anchoredTransaction_answers_truthfully_sample :
    (Sample.transact (Sample.emptyBytes ++ [10])).1 = .nil ∧
      ∃ s', (Sample.transact (Sample.emptyBytes ++ [10])).2.disk.anchor = some s' ∧ s'.generation = 8 := by
  have hr : (Sample.transact (Sample.emptyBytes ++ [10])).1 = .nil := by decide +kernel
  unfold Sample.transact at hr ⊢
  have hne : ((Sample.decodeStored (Sample.emptyBytes ++ [10])).all fun ledger =>
      sha256Scheme.digestOf (Sample.touch ledger).2.toJson.marshal !=
        sha256Scheme.digestOf (Sample.emptyBytes ++ [10])) = true := by decide +kernel
  obtain ⟨ledger, hd, h⟩ := (anchoredTransaction_answers_truthfully sha256Scheme Sample.anchorIdentity
    Sample.transactionCall (Sample.anchoredWorld (Sample.emptyBytes ++ [10])) Sample.decodeStored Sample.touch).1 hr
  rw [Sample.ledger_anchoredWorld] at hd h
  rw [hd, Option.all_some, bne_iff_ne] at hne
  refine ⟨hr, ?_⟩
  obtain ⟨_, hsame | ⟨_, hsame⟩⟩ | ⟨_, _, s, s', hs, hs', _, _, hgen⟩ := h
  · cases hsame
  · exact absurd hsame hne
  · exact ⟨s', hs', by rw [hgen, Sample.generation_anchoredWorld hs]⟩

end Desk
