import Desk.Evaluation.JournalSound
import Desk.Evaluation.Subscription

/-!
# What a subscription delivers

A pass that goes through everything leaves no record owed, unless a row of it was
superseded.
-/

namespace Desk.Evaluation

section
variable {R : Type} {d : DigestOf R} {w : World R}

/-! ## Passes -/

/-- What holds of a pass that goes on, and of one that ended. -/
structure Ensures (m : Pass) (go : Held → Prop) (out : InputEvaluation × Ending → Prop) : Prop where
  ok : ∀ h, m = .ok h → go h
  error : ∀ r, m = .error r → out r

variable {go go' : Held → Prop} {out : InputEvaluation × Ending → Prop}

theorem ensures_ok {h : Held} (hgo : go h) : Ensures (.ok h) go out where
  ok h' heq := by
    rw [← Except.ok.inj heq]
    exact hgo
  error r heq := by cases heq

theorem ensures_error {r : InputEvaluation × Ending} (hout : out r) : Ensures (.error r) go out where
  ok h heq := by cases heq
  error r' heq := by
    rw [← Except.error.inj heq]
    exact hout

theorem Ensures.bind {m : Pass} {f : Held → Pass} (hm : Ensures m go out) (hf : ∀ h, go h → Ensures (f h) go' out) :
    Ensures (m.bind f) go' out := by
  cases hcase : m with
  | ok h => exact hf h (hm.ok h hcase)
  | error r => exact ensures_error (hm.error r hcase)

theorem ensures_bind (go : Held → Prop) {m : Pass} {f : Held → Pass} (hm : Ensures m go out)
    (hf : ∀ h, go h → Ensures (f h) go' out) : Ensures (m.bind f) go' out := hm.bind hf

theorem Ensures.mono {m : Pass} (hm : Ensures m go out) (hgo : ∀ h, go h → go' h) : Ensures m go' out :=
  ⟨fun h heq => hgo h (hm.ok h heq), hm.error⟩

theorem ensures_foldlM {α : Type} {f : Held → α → Pass} {l : List α} (hf : ∀ h, ∀ a ∈ l, go h → Ensures (f h a) go out)
    {h : Held} (hgo : go h) : Ensures (l.foldlM f h) go out := by
  induction l generalizing h with
  | nil => exact ensures_ok hgo
  | cons a l ih =>
    rw [List.foldlM_cons]
    exact (hf h a List.mem_cons_self hgo).bind fun h' hgo' => ih (fun h b hb => hf h b (List.mem_cons_of_mem _ hb)) hgo'

/-- What a row is after its turn, every row is after the last. -/
theorem ensures_eachRow {step : Nat → InputEvaluationRow → Held → Pass} {done : InputEvaluationRow → Prop}
    (hstep : ∀ i row h, go h → h.b.rows[i]? = some row →
      Ensures (step i row h) (fun h' => go h' ∧ ∃ row', h'.b.rows = h.b.rows.set i row' ∧ done row') out)
    {h : Held} (hgo : go h) : Ensures (eachRow step h) (fun h' => go h' ∧ ∀ row ∈ h'.b.rows, done row) out := by
  have hall : ∀ {f : Held → Nat → Pass}, (∀ h i row, h.b.rows[i]? = some row → f h i = step i row h) →
      ∀ n, ∀ h : Held, go h → n ≤ h.b.rows.length → Ensures ((List.range n).foldlM f h)
        (fun h' => go h' ∧ h'.b.rows.length = h.b.rows.length ∧ ∀ i < n, ∀ row, h'.b.rows[i]? = some row → done row) out := by
    intro f hf n
    induction n with
    | zero =>
      intro h hgo _
      exact ensures_ok ⟨hgo, rfl, fun i hi => absurd hi (Nat.not_lt_zero _)⟩
    | succ n ih =>
      intro h hgo hn
      rw [List.range_succ, List.foldlM_append]
      refine (ih h hgo (Nat.le_of_succ_le hn)).bind ?_
      rintro h₁ ⟨hgo₁, hlength, hdone⟩
      rw [List.foldlM_cons]
      have hlt : n < h₁.b.rows.length := by omega
      rw [hf _ n _ (List.getElem?_eq_getElem hlt)]
      refine Ensures.bind (hstep n _ h₁ hgo₁ (List.getElem?_eq_getElem hlt)) ?_
      rintro h₂ ⟨hgo₂, row', hrows, hrow'⟩
      refine ensures_ok ⟨hgo₂, by rw [hrows, List.length_set, hlength], fun i hi row hrow => ?_⟩
      rw [hrows] at hrow
      by_cases heq : n = i
      · subst heq
        rw [List.getElem?_set_self hlt] at hrow
        exact Option.some.inj hrow ▸ hrow'
      · rw [List.getElem?_set_ne heq] at hrow
        exact hdone i (by omega) row hrow
  unfold eachRow
  refine (hall (fun h i row hrow => by rw [hrow]) _ h hgo (Nat.le_refl _)).mono ?_
  rintro h' ⟨hgo', hlength, hdone⟩
  refine ⟨hgo', fun row hmem => ?_⟩
  obtain ⟨i, hi, heq⟩ := List.mem_iff_getElem.mp hmem
  exact hdone i (hlength ▸ hi) row (by rw [List.getElem?_eq_getElem hi, heq])

/-! ## What is kept -/

/-- A row's event is its record's, and it was delivered, or is pending or superseded. -/
structure RowKept (d : DigestOf R) (first : InputEvaluation) (row : InputEvaluationRow) : Prop where
  identified : row.eventID = "input-" ++
    d.identity first.preparationID row.recordID row.recordDigest first.recipeVersion first.releaseID
  placed : row.occurrenceID ≠ "" ∨ row.state = "pending" ∨ row.state = "superseded"

structure Kept (d : DigestOf R) (first b : InputEvaluation) : Prop where
  preparationID : b.preparationID = first.preparationID
  recipeVersion : b.recipeVersion = first.recipeVersion
  releaseID : b.releaseID = first.releaseID
  rows : ∀ row ∈ b.rows, RowKept d first row

structure HeldKept (d : DigestOf R) (first : InputEvaluation) (h : Held) : Prop where
  memory : Kept d first h.b
  retained : Kept d first h.retained

variable {first : InputEvaluation} {h : Held}

/-- What a pass that ended before it was through retained is kept. -/
def OutKept (d : DigestOf R) (first : InputEvaluation) (r : InputEvaluation × Ending) : Prop :=
  Kept d first r.1 ∧ r.2 ≠ .through

theorem HeldKept.document (hh : HeldKept d first h) : Kept d first h.document :=
  ⟨hh.memory.preparationID, hh.memory.recipeVersion, hh.memory.releaseID, hh.memory.rows⟩

/-- The document changes beside its rows. -/
theorem HeldKept.beside (hh : HeldKept d first h) (state problem jobID : String) (a : InputSubscription) (budget : Nat) :
    HeldKept d first { h with b := { h.b with state, problem, jobID }, a, budget } :=
  ⟨⟨hh.memory.preparationID, hh.memory.recipeVersion, hh.memory.releaseID, hh.memory.rows⟩, hh.retained⟩

theorem HeldKept.row (hh : HeldKept d first h) {row : InputEvaluationRow} (hrow : RowKept d first row) (i : Nat)
    (a : InputSubscription) (budget : Nat) : HeldKept d first ({ h with a, budget }.row i row) := by
  refine ⟨⟨hh.memory.preparationID, hh.memory.recipeVersion, hh.memory.releaseID, fun x hx => ?_⟩, hh.retained⟩
  rcases List.mem_or_eq_of_mem_set hx with hx | rfl
  · exact hh.memory.rows x hx
  · exact hrow

theorem ensures_stop (hh : HeldKept d first h) : Ensures (stop h) go (OutKept d first) :=
  ensures_error ⟨hh.retained, by simp⟩

/-- What is saved is what is in memory. -/
theorem ensures_save (hh : HeldKept d first h) :
    Ensures (save w h) (fun h' => HeldKept d first h' ∧ h' = { h with retained := h.document, saves := h.saves + 1 })
      (OutKept d first) := by
  unfold save
  split
  · exact ensures_ok ⟨⟨hh.memory, hh.document⟩, rfl⟩
  · exact ensures_stop hh

theorem ensures_save_stop (hh : HeldKept d first h) : Ensures ((save w h).bind stop) go (OutKept d first) :=
  (ensures_save hh).bind fun _ hh' => ensures_stop hh'.1

theorem ensures_problem (hh : HeldKept d first h) (f : Failure) : Ensures (problem w f h) go (OutKept d first) :=
  ensures_save_stop (hh.beside _ _ _ _ _)

theorem ensures_saveRow (hh : HeldKept d first h) {row : InputEvaluationRow} (hrow : RowKept d first row) (i : Nat)
    (a : InputSubscription) (budget : Nat) (done : InputEvaluationRow → Prop) (hdone : done row) :
    Ensures (save w ({ h with a, budget }.row i row))
      (fun h' => HeldKept d first h' ∧ ∃ row', h'.b.rows = h.b.rows.set i row' ∧ done row') (OutKept d first) :=
  (ensures_save (hh.row hrow i a budget)).mono fun h' ⟨hh', heq⟩ => ⟨hh', row, by rw [heq]; rfl, hdone⟩

/-- A row that is passed over is as it was. -/
theorem ensures_same (hh : HeldKept d first h) {i : Nat} {row : InputEvaluationRow} (hi : h.b.rows[i]? = some row)
    {done : InputEvaluationRow → Prop} (hdone : done row) :
    Ensures (.ok h) (fun h' => HeldKept d first h' ∧ ∃ row', h'.b.rows = h.b.rows.set i row' ∧ done row') (OutKept d first) := by
  obtain ⟨hlt, rfl⟩ := List.getElem?_eq_some_iff.mp hi
  exact ensures_ok ⟨hh, _, (List.set_getElem_self hlt).symm, hdone⟩

theorem ne_nil_of_occurrence {id : String} (hid : isOccurrenceID id = true) : id ≠ "" := by
  rintro rfl
  exact absurd hid (by decide)

/-! ## The steps of a pass -/

theorem ensures_ensureEvaluationJob (hh : HeldKept d first h) :
    Ensures (ensureEvaluationJob w h) (HeldKept d first) (OutKept d first) := by
  unfold ensureEvaluationJob
  split
  · exact ensures_ok hh
  · split
    · exact ensures_problem hh _
    · exact ensures_problem hh _
    · split
      · exact ensures_problem hh _
      · split
        · exact ensures_problem hh _
        · exact (ensures_save (hh.beside _ _ _ _ _)).mono fun _ hh' => hh'.1

theorem ensures_sendState (tr : Trigger) (hh : HeldKept d first h) :
    Ensures (sendState w tr h) (HeldKept d first) (OutKept d first) := by
  unfold sendState
  refine ensures_bind (HeldKept d first) ?_ fun h' hh' => ?_
  · split
    · split
      · exact ensures_problem hh _
      · exact ensures_problem hh _
      · split
        · exact ensures_problem hh _
        · exact ensures_ok hh
    · exact ensures_ok hh
  · split
    · exact ensures_problem hh' _
    · exact (ensures_save (hh'.beside _ _ _ _ _)).mono fun _ hh'' => hh''.1

theorem ensures_checkTrigger (tr : Trigger) (hh : HeldKept d first h) :
    Ensures (checkTrigger w h tr) (HeldKept d first) (OutKept d first) := by
  unfold checkTrigger
  split
  · exact ensures_ok hh
  · split
    · exact ensures_problem hh _
    · split
      · exact ensures_sendState tr hh
      · split
        · exact ensures_save_stop (hh.beside _ _ _ _ _)
        · exact ensures_ok hh

theorem ensures_checkTriggers (hh : HeldKept d first h) :
    Ensures (checkTriggers w h) (HeldKept d first) (OutKept d first) := by
  unfold checkTriggers
  split
  · exact ensures_problem hh _
  · exact ensures_problem hh _
  · refine Ensures.bind (ensures_foldlM (fun h tr _ hh => ensures_checkTrigger tr hh) hh) fun h' hh' => ?_
    split
    · exact ensures_ok hh'
    · exact ensures_problem hh' _

/-- What a row's turn keeps, and what it leaves of the row. -/
def Turned (d : DigestOf R) (first : InputEvaluation) (h : Held) (i : Nat) (done : InputEvaluationRow → Prop) (h' : Held) :
    Prop := HeldKept d first h' ∧ ∃ row', h'.b.rows = h.b.rows.set i row' ∧ done row'

theorem ensures_recoverRow {i : Nat} {row : InputEvaluationRow} (hh : HeldKept d first h) (hi : h.b.rows[i]? = some row) :
    Ensures (recoverRow w i row h) (Turned d first h i fun _ => True) (OutKept d first) := by
  have hrow := hh.memory.rows row (List.mem_of_getElem? hi)
  have hspent : HeldKept d first { h with budget := h.budget - 1 } := hh.beside _ _ _ _ _
  unfold recoverRow
  split
  · exact ensures_same hh hi trivial
  · dsimp only
    split
    · split
      · exact ensures_same hspent hi trivial
      · exact ensures_problem hspent _
    · exact ensures_problem hspent _
    · next o _ =>
      split
      · exact ensures_problem hspent _
      · next hform =>
        refine ensures_saveRow hh ?_ i h.a (h.budget - 1) (fun _ => True) trivial
        exact ⟨hrow.identified, Or.inl (ne_nil_of_occurrence (not_not.mp fun hid => hform (Or.inl hid)))⟩

theorem ensures_reconcileRow {i : Nat} {row : InputEvaluationRow} (hh : HeldKept d first h) (hi : h.b.rows[i]? = some row) :
    Ensures (reconcileRow w i row h) (Turned d first h i fun _ => True) (OutKept d first) := by
  have hrow := hh.memory.rows row (List.mem_of_getElem? hi)
  have hspent : HeldKept d first { h with budget := h.budget - 1 } := hh.beside _ _ _ _ _
  unfold reconcileRow
  split
  · exact ensures_same hh hi trivial
  · next hcalled =>
    have hdelivered : row.occurrenceID ≠ "" := fun hnil => hcalled (Or.inl hnil)
    -- whatever is told of the row, its occurrence stays
    have hkept : ∀ row' : InputEvaluationRow, row'.eventID = row.eventID ∧ row'.recordID = row.recordID ∧
        row'.recordDigest = row.recordDigest ∧ row'.occurrenceID = row.occurrenceID → RowKept d first row' :=
      fun row' ⟨hevent, hid, hdigest, hoccurrence⟩ =>
        ⟨by rw [hevent, hid, hdigest, hrow.identified], Or.inl (by rw [hoccurrence]; exact hdelivered)⟩
    have htold : ∀ row' : InputEvaluationRow, row'.eventID = row.eventID ∧ row'.recordID = row.recordID ∧
        row'.recordDigest = row.recordDigest ∧ row'.occurrenceID = row.occurrenceID →
        HeldKept d first ({ h with budget := h.budget - 1 }.row i row') :=
      fun row' hsame => hh.row (hkept row' hsame) i h.a (h.budget - 1)
    dsimp only
    split
    · exact ensures_problem hspent _
    · exact ensures_problem hspent _
    · split
      · exact ensures_problem hspent _
      · split
        · refine ensures_saveRow hh ?_ i h.a (h.budget - 1) (fun _ => True) trivial
          exact hkept _ ⟨rfl, rfl, rfl, rfl⟩
        · split
          · refine ensures_problem (htold _ ?_) _
            exact ⟨rfl, rfl, rfl, rfl⟩
          · refine ensures_problem (htold _ ?_) _
            exact ⟨rfl, rfl, rfl, rfl⟩
          · split
            · refine ensures_problem (htold _ ?_) _
              exact ⟨rfl, rfl, rfl, rfl⟩
            · split
              · refine ensures_problem (htold _ ?_) _
                exact ⟨rfl, rfl, rfl, rfl⟩
              · refine ensures_saveRow hh ?_ i h.a (h.budget - 1) (fun _ => True) trivial
                exact hkept _ ⟨rfl, rfl, rfl, rfl⟩

/-- Delivered, or superseded. -/
def Settled (row : InputEvaluationRow) : Prop := row.occurrenceID ≠ "" ∨ row.state = "superseded"

theorem RowKept.settled {row : InputEvaluationRow} (hrow : RowKept d first row)
    (hpassed : row.eventID = "" ∨ row.occurrenceID ≠ "" ∨ row.state ≠ "pending") : Settled row := by
  have hevent : row.eventID ≠ "" := by
    rw [hrow.identified]
    intro hnil
    have hlist := congrArg String.toList hnil
    rw [String.toList_append] at hlist
    exact absurd (List.append_eq_nil_iff.mp hlist).1 (by decide)
  rcases hpassed with hnil | hdelivered | hstate
  · exact absurd hnil hevent
  · exact Or.inl hdelivered
  · rcases hrow.placed with hdelivered | hpending | hsuperseded
    · exact Or.inl hdelivered
    · exact absurd hpending hstate
    · exact Or.inr hsuperseded

theorem ensures_retireRow {i : Nat} {row : InputEvaluationRow} (hh : HeldKept d first h) (hi : h.b.rows[i]? = some row) :
    Ensures (retireRow w i row h) (Turned d first h i Settled) (OutKept d first) := by
  have hrow := hh.memory.rows row (List.mem_of_getElem? hi)
  unfold retireRow
  dsimp only
  split
  · split
    · refine ensures_saveRow hh ?_ i _ h.budget Settled (Or.inr rfl)
      exact ⟨hrow.identified, Or.inr (Or.inr rfl)⟩
    · exact ensures_problem hh _
  · exact ensures_problem hh _
  · split
    · exact ensures_problem hh _
    · next hform =>
      have hid := ne_nil_of_occurrence (not_not.mp hform)
      refine ensures_saveRow hh ?_ i _ h.budget Settled (Or.inl hid)
      exact ⟨hrow.identified, Or.inl hid⟩

theorem ensures_waitForCapacity (hh : HeldKept d first h) : Ensures (waitForCapacity w h) go (OutKept d first) :=
  ensures_save_stop (hh.beside _ _ _ _ _)

theorem ensures_deliverRow (doc : InputPreparation R) {i : Nat} {row : InputEvaluationRow} (hh : HeldKept d first h)
    (hi : h.b.rows[i]? = some row) :
    Ensures (deliverRow d w doc i row h) (Turned d first h i Settled) (OutKept d first) := by
  have hrow := hh.memory.rows row (List.mem_of_getElem? hi)
  unfold deliverRow
  split
  · next hpassed => exact ensures_same hh hi (hrow.settled hpassed)
  · split
    · exact ensures_retireRow hh hi
    · split
      · exact ensures_stop hh
      · split
        · split
          · exact ensures_waitForCapacity hh
          · exact ensures_problem hh _
        · exact ensures_problem hh _
        · split
          · exact ensures_problem hh _
          · next hform =>
            have hid := ne_nil_of_occurrence (not_not.mp hform)
            refine ensures_saveRow hh ?_ i _ h.budget Settled (Or.inl hid)
            exact ⟨hrow.identified, Or.inl hid⟩

/-- Every row is settled, and no record is owed one. -/
structure Through (d : DigestOf R) (first : InputEvaluation) (doc : InputPreparation R) (h : Held) : Prop where
  kept : HeldKept d first h
  settled : ∀ row ∈ h.b.rows, Settled row
  none_owed : ∀ record ∈ doc.records, subscriptionEligible d h.b h.a doc record = false
  saved : h.retained = h.document

theorem ensures_admitNext (doc : InputPreparation R) (hh : HeldKept d first h) (hsettled : ∀ row ∈ h.b.rows, Settled row) :
    Ensures (admitNext d w doc h) (Through d first doc) (OutKept d first) := by
  unfold admitNext
  split
  · exact ensures_problem hh _
  · split
    · next record hfind =>
      split
      · exact ensures_problem hh _
      · next input _ =>
        have hrow : RowKept d first (rowOf d w h record input) := by
          refine ⟨?_, Or.inr (Or.inl rfl)⟩
          show subscriptionIdentity d h.b record = _
          rw [subscriptionIdentity, hh.memory.preparationID, hh.memory.recipeVersion, hh.memory.releaseID]
          rfl
        have happended : HeldKept d first { h with
            b := { h.b with rows := h.b.rows ++ [rowOf d w h record input], state := "watching", problem := "" } } := by
          refine ⟨⟨hh.memory.preparationID, hh.memory.recipeVersion, hh.memory.releaseID, fun row hmem => ?_⟩, hh.retained⟩
          rcases List.mem_append.mp hmem with hmem | hmem
          · exact hh.memory.rows row hmem
          · rw [List.mem_singleton.mp hmem]
            exact hrow
        exact (ensures_save happended).bind fun h' hh' => ensures_error ⟨hh'.1.retained, by simp⟩
    · next hfind =>
      refine (ensures_save (hh.beside "watching" "" h.b.jobID { h.a.clearCapacityWait with failures := 0, retryAt := "" }
        h.budget)).mono fun h' ⟨hh', heq⟩ => ⟨hh', ?_, ?_, ?_⟩
      · rw [heq]
        exact hsettled
      · intro record hrecord
        rw [heq]
        exact Bool.eq_false_iff.mpr (List.find?_eq_none.mp hfind record hrecord)
      · rw [heq]
        rfl

theorem ensures_pass (doc : InputPreparation R) (hh : HeldKept d first h) :
    Ensures (pass d w doc h) (Through d first doc) (OutKept d first) := by
  unfold pass
  refine (ensures_ensureEvaluationJob hh).bind fun h hh => (ensures_checkTriggers hh).bind fun h hh => ?_
  refine ensures_bind (HeldKept d first) ?_ fun h hh => ?_
  · unfold reconcile
    refine ensures_bind (HeldKept d first) ?_ fun h hh =>
      (ensures_eachRow (fun i row h hh hi => ensures_reconcileRow hh hi) hh).mono fun _ hh' => hh'.1
    split
    · exact ensures_ok hh
    · exact (ensures_eachRow (fun i row h hh hi => ensures_recoverRow hh hi) hh).mono fun _ hh' => hh'.1
  · split
    · unfold deliver
      split
      · exact ensures_stop hh
      · split
        · exact ensures_problem hh _
        · next a _ =>
          have hread : HeldKept d first { h with a } := hh.beside _ _ _ _ _
          exact (ensures_eachRow (fun i row h hh hi => ensures_deliverRow doc hh hi) hread).bind
            fun h' ⟨hh', hsettled⟩ => ensures_admitNext doc hh' hsettled
    · exact ensures_save_stop (hh.beside _ _ _ _ _)

/-! ## Runs -/

theorem kept_advance (doc : InputPreparation R) {b : InputEvaluation} (hb : Kept d first b) :
    Kept d first (advanceInputSubscription d w doc b).1 := by
  unfold advanceInputSubscription
  split
  · exact hb
  · split
    · exact hb
    · next a _ _ =>
      have hpass := ensures_pass (d := d) (w := w) doc (h := ⟨b, a, b, 0, 20⟩) ⟨hb, hb⟩
      split
      · next h heq => exact (hpass.ok h heq).kept.retained
      · next ended heq => exact (hpass.error ended heq).1

theorem kept_setEnabled (doc : InputPreparation R) (enabled : Bool) (p : Project) {b : InputEvaluation} (hb : Kept d first b) :
    Kept d first (setEnabled d doc enabled p b) := by
  unfold setEnabled
  split
  · exact hb
  · split
    · exact hb
    · split
      · exact hb
      · exact ⟨hb.preparationID, hb.recipeVersion, hb.releaseID, hb.rows⟩

theorem kept_step (s : System R) (event : Event R) (hs : Kept d first s.b) : Kept d first (s.step d event).b := by
  cases event with
  | pass w =>
    unfold System.step
    dsimp only
    split
    · exact hs
    · exact kept_advance s.doc hs
  | edited doc => exact hs
  | setEnabled enabled p retained =>
    unfold System.step
    dsimp only
    split
    · exact kept_setEnabled s.doc enabled p hs
    · exact hs
  | resume retained =>
    unfold System.step
    dsimp only
    split
    · exact ⟨hs.preparationID, hs.recipeVersion, hs.releaseID, hs.rows⟩
    · exact hs

theorem kept_run (hrows : first.rows = []) (doc : InputPreparation R) (events : List (Event R)) :
    Kept d first (run (System.step d) ⟨first, doc⟩ events).b := by
  refine run_invariant (P := fun s : System R => Kept d first s.b) kept_step ⟨rfl, rfl, rfl, fun row hrow => ?_⟩ events
  rw [hrows] at hrow
  cases hrow

/-! ## What is delivered -/

/-- A record of the subscription's class that is ready and that the baseline does not cover. -/
structure Watched (d : DigestOf R) (doc : InputPreparation R) (a : InputSubscription) (record : PreparedInputRecord R) : Prop where
  mem : record ∈ doc.records
  class_ : record.class_ = a.sourceClass
  ready : ready d doc record = true
  uncovered : covered d a record = false

/-- A row of the record, and of what it is now where changed records are taken. -/
def Concerns (d : DigestOf R) (a : InputSubscription) (record : PreparedInputRecord R) (row : InputEvaluationRow) : Prop :=
  row.recordID = record.id ∧ (a.mode = "new" ∨ row.recordDigest = inputRecordDigest d record)

/-- No two records of one collection and release have one identity. -/
def DigestOf.Separates (d : DigestOf R) : Prop := ∀ preparationID version releaseID id digest id' digest',
  d.identity preparationID id digest version releaseID = d.identity preparationID id' digest' version releaseID →
    id = id' ∧ digest = digest'

/-- A record that is watched and owed nothing has a row. -/
theorem exists_concerns (hd : d.Separates) {b : InputEvaluation} {a : InputSubscription} {doc : InputPreparation R}
    {record : PreparedInputRecord R} (hb : Kept d first b) (hwatched : Watched d doc a record)
    (hnone : subscriptionEligible d b a doc record = false) : ∃ row ∈ b.rows, Concerns d a record row := by
  rw [subscriptionEligible, hwatched.class_, hwatched.ready, hwatched.uncovered] at hnone
  simp only [beq_self_eq_true, Bool.not_false, Bool.and_self, Bool.true_and, Bool.and_eq_false_iff, Bool.not_eq_false',
    Bool.and_eq_true, List.any_eq_true, beq_iff_eq] at hnone
  rcases hnone with ⟨hmode, row, hrow, hid⟩ | ⟨row, hrow, hevent⟩
  · exact ⟨row, hrow, hid, Or.inl hmode⟩
  · have hidentified := (hb.rows row hrow).identified
    rw [hevent, subscriptionIdentity, hb.preparationID, hb.recipeVersion, hb.releaseID] at hidentified
    have hlist := congrArg String.toList hidentified
    rw [String.toList_append, String.toList_append] at hlist
    obtain ⟨hid, hdigest⟩ := hd _ _ _ _ _ _ _ (String.toList_inj.mp (List.append_cancel_left hlist))
    exact ⟨row, hrow, hid.symm, Or.inr hdigest.symm⟩

/-- In any run, a pass that goes through everything leaves every watched record delivered, unless a row of it was
superseded. -/
theorem watched_delivered (hd : d.Separates) (hrows : first.rows = []) (doc : InputPreparation R) (events : List (Event R))
    (w : World R) (b : InputEvaluation) (a : InputSubscription)
    (hpass : advanceInputSubscription d w (run (System.step d) ⟨first, doc⟩ events).doc
      (run (System.step d) ⟨first, doc⟩ events).b = (b, .through)) (ha : b.subscription = some a)
    (record : PreparedInputRecord R) (hwatched : Watched d (run (System.step d) ⟨first, doc⟩ events).doc a record)
    (hkept : ∀ row ∈ b.rows, Concerns d a record row → row.state ≠ "superseded") :
    ∃ row ∈ b.rows, Concerns d a record row ∧ row.occurrenceID ≠ "" := by
  have hrun := kept_run (d := d) hrows doc events
  generalize run (System.step d) ⟨first, doc⟩ events = s at hpass hwatched hrun
  unfold advanceInputSubscription at hpass
  split at hpass
  · cases hpass
  · split at hpass
    · cases hpass
    · next a₀ _ _ =>
      have hensures := ensures_pass (d := d) (w := w) s.doc (h := ⟨s.b, a₀, s.b, 0, 20⟩) ⟨hrun, hrun⟩
      split at hpass
      · next h heq =>
        have hthrough := hensures.ok h heq
        have hb : b = h.document := by rw [← hthrough.saved, (Prod.mk.inj hpass).1]
        subst hb
        obtain rfl : h.a = a := Option.some.inj ha
        obtain ⟨row, hrow, hconcerns⟩ :=
          exists_concerns hd hthrough.kept.memory hwatched (hthrough.none_owed record hwatched.mem)
        refine ⟨row, hrow, hconcerns, (hthrough.settled row hrow).resolve_right (hkept row hrow hconcerns)⟩
      · next ended heq => exact absurd (congrArg Prod.snd hpass) (hensures.error ended heq).2

end

/-! ## One record -/

/-- A digest of two values that keeps both, with a mark in front of each character of the first. -/
def pairDigest : DigestOf Unit where
  record r := r.status
  identity _ id digest _ _ := String.ofList (id.toList.flatMap (fun c => ['+', c]) ++ '-' :: digest.toList)

theorem marked_inj : ∀ {l l' r r' : List Char},
    l.flatMap (fun c => ['+', c]) ++ '-' :: r = l'.flatMap (fun c => ['+', c]) ++ '-' :: r' → l = l' ∧ r = r'
  | [], [], _, _, h => ⟨rfl, (List.cons.inj h).2⟩
  | [], _ :: _, _, _, h => absurd (List.cons.inj h).1 (by decide)
  | _ :: _, [], _, _, h => absurd (List.cons.inj h).1 (by decide)
  | c :: l, c' :: l', _, _, h => by
    simp only [List.flatMap_cons, List.cons_append, List.nil_append, List.cons.injEq, true_and] at h
    obtain ⟨rfl, hrest⟩ := h
    obtain ⟨rfl, rfl⟩ := marked_inj hrest
    exact ⟨rfl, rfl⟩

theorem pairDigest_separates : pairDigest.Separates := by
  intro _ _ _ id digest id' digest' h
  obtain ⟨hid, hdigest⟩ := marked_inj (String.ofList_injective h)
  exact ⟨String.toList_inj.mp hid, String.toList_inj.mp hdigest⟩

/-- A subscription to new and changed records that was confirmed, and not yet enabled. -/
def subscribed : InputEvaluation := { evaluationOf none with
  confirmedAt := "2026-10-15T12:00:00Z", state := "queued", rows := []
  subscription := some { mode := "changed", sourceClass := "asserted" } }

def jobID : String := "job_00000000000000000000000000000000"

def triggerOf : String := "trg_00000000000000000000000000000000"

def project : Project := ⟨none, .ok ⟨[("key", "pack")], "policy", .ok "1"⟩⟩

/-- Runner answers everything, and takes every delivery. -/
def answering : World Unit where
  retains _ := true
  waits _ := false
  capacityWaits _ _ := false
  after _ := ""
  now := "2026-10-15T12:00:00Z"
  job := .ok (some ⟨jobID, "records", subscribed.releaseID, triggerOf⟩)
  triggers := .ok (some [⟨triggerOf, 1, false, some "event", some "queue", some 3600⟩])
  currentJob _ := .ok (some (jobID, subscribed.releaseID))
  setState _ := none
  recovered _ := .error ⟨"", some (404, "")⟩
  delivery _ := .error ⟨"", some (404, "")⟩
  runOf _ := .error ⟨"", some (404, "")⟩
  busy := false
  project := project
  receipt _ := .error ⟨"", some (404, "")⟩
  delivered _ := .ok (some ⟨"occ_1", jobID, subscribed.releaseID, triggerOf, "", "completed", "", ""⟩)
  prepared _ := .ok (some "1")

/-- The collection with these records. -/
def collection (records : List (PreparedInputRecord Unit)) : InputPreparation Unit := ⟨[], 1, some ⟨"key", "pack"⟩, records⟩

def asserted : PreparedInputRecord Unit := ⟨none, "row-1", none, "record", ∅, "source", 1, "asserted", "ready"⟩

/-- The subscription is enabled on an empty collection, and the worker comes by. -/
def enabledEmpty : List (Event Unit) := [.setEnabled true project true, .pass answering]

/-- The record comes, and a pass appends its row. -/
def appending : List (Event Unit) := enabledEmpty ++ [.edited (collection [asserted]), .pass answering]

/-- Another pass delivers it. -/
def lastPass : InputEvaluation × Ending :=
  advanceInputSubscription pairDigest answering (run (System.step pairDigest) ⟨subscribed, collection []⟩ appending).doc
    (run (System.step pairDigest) ⟨subscribed, collection []⟩ appending).b

theorem watched_delivered_asserted : lastPass.2 = .through ∧
    ∃ a, ∃ row ∈ lastPass.1.rows, Concerns pairDigest a asserted row ∧ row.occurrenceID ≠ "" := by
  have hthrough : lastPass.2 = .through := by decide +kernel
  have hkept : ∀ row ∈ lastPass.1.rows, row.state ≠ "superseded" := by decide +kernel
  have hsub : lastPass.1.subscription.all (fun a => a.sourceClass == "asserted" && !covered pairDigest a asserted) = true := by
    decide +kernel
  obtain ⟨a, ha⟩ : ∃ a, lastPass.1.subscription = some a := Option.isSome_iff_exists.mp (by decide +kernel)
  rw [ha, Option.all_some, Bool.and_eq_true, beq_iff_eq, Bool.not_eq_true'] at hsub
  have hpass : lastPass = (lastPass.1, .through) := Prod.ext rfl hthrough
  exact ⟨hthrough, a, watched_delivered pairDigest_separates (show subscribed.rows = [] from rfl) (collection []) appending
    answering lastPass.1 a hpass ha asserted
    ⟨List.mem_singleton_self _, hsub.1.symm, by decide +kernel, hsub.2⟩ fun row hrow _ => hkept row hrow⟩

/-- Watched records stay undelivered: one where a pass finds the collection busy, and one whose row was superseded
while it was away. -/
theorem watched_not_delivered :
    (let s := run (System.step pairDigest) ⟨subscribed, collection []⟩ (enabledEmpty ++ [.edited (collection [asserted])])
      let r := advanceInputSubscription pairDigest { answering with busy := true } s.doc s.b
      r.1.state = "watching" ∧ r.1.rows.length = s.b.rows.length ∧
        (∃ a, r.1.subscription = some a ∧ Watched pairDigest s.doc a asserted) ∧ r.1.rows = []) ∧
    (let s := run (System.step pairDigest) ⟨subscribed, collection []⟩ (appending ++ [.edited (collection []),
        .pass answering, .edited (collection [asserted])])
      let r := advanceInputSubscription pairDigest answering s.doc s.b
      r.2 = .through ∧ r.1.state = "watching" ∧ r.1.rows.length = s.b.rows.length ∧
        (∃ a, r.1.subscription = some a ∧ Watched pairDigest s.doc a asserted) ∧
        r.1.rows.map (fun row => (row.state, row.occurrenceID)) = [("superseded", "")]) := by
  refine ⟨⟨by decide +kernel, by decide +kernel, ⟨_, rfl, ?_⟩, by decide +kernel⟩,
    ⟨by decide +kernel, by decide +kernel, by decide +kernel, ⟨_, rfl, ?_⟩, by decide +kernel⟩⟩
  · exact ⟨List.mem_singleton_self _, by decide +kernel, by decide +kernel, by decide +kernel⟩
  · exact ⟨List.mem_singleton_self _, by decide +kernel, by decide +kernel, by decide +kernel⟩

end Desk.Evaluation
