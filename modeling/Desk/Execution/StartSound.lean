import Desk.Execution.Run
import Desk.Execution.Valid

/-!
# At most one start

What a run of execution commands can do to the attempt of one intent. It is
recorded once; sealed, blocked or started it never changes again; and only the
session of the current epoch decides a start.
-/

namespace Desk

open ExecutionCall (startedAttempt Started Admitted Change Effect)

/-- The attempt of an intent. -/
def attemptOf (l : PolicyLedger) (intentID : String) : Option PolicyExecutionAttempt :=
  l.execution.bind fun e => e.attempts.get? intentID

/-! ## One step -/

/-- What one command can do to an attempt. -/
inductive AttemptStep (c : ExecutionCall) (l : PolicyLedger) (command : ExecutionCommand) (intentID : String) :
    Option PolicyExecutionAttempt → Option PolicyExecutionAttempt → Prop where
  | kept {a : Option PolicyExecutionAttempt} : AttemptStep c l command intentID a a
  | recorded {a : PolicyExecutionAttempt} : a.start = none → AttemptStep c l command intentID none (some a)
  | held {a : PolicyExecutionAttempt} {hold : PolicyExecutionHold} : a.state = .reserved → a.hold = none →
      AttemptStep c l command intentID (some a) (some { a with hold := some hold })
  | started {a : PolicyExecutionAttempt} {start : PolicyExecutionStartResult} {e : PolicyExecutionState} {now : String}
      {s : PolicyExecutionSession} {q : PolicyExecutionStartRequest} {epoch : PolicyExecutionEpoch} :
      Admitted c l e now → Started c (l.observed now) (ExecutionCall.at_ e now) now s q a epoch start →
      command = .commitStart s q → q.intentID = intentID →
      AttemptStep c l command intentID (some a) (some (startedAttempt a start))

theorem attemptOf_observed (l : PolicyLedger) (now intentID : String) :
    attemptOf (l.observed now).committed intentID = attemptOf l intentID := by
  unfold attemptOf
  rw [PolicyLedger.committed_execution, PolicyLedger.observed_execution]
  cases l.execution <;> rfl

theorem attemptOf_eq {l : PolicyLedger} {e : PolicyExecutionState} (h : l.execution = some e) (intentID : String) :
    attemptOf l intentID = e.attempts.get? intentID := by
  rw [attemptOf, h]
  rfl

theorem attemptOf_set (l : PolicyLedger) (e : PolicyExecutionState) (attempts : Table PolicyExecutionAttempt)
    (intentID : String) :
    attemptOf ({ l with execution := some { e with attempts := attempts } } : PolicyLedger).committed intentID =
      attempts.get? intentID := rfl

/-- A change of another table leaves the attempts. -/
theorem attemptOf_kept {c : ExecutionCall} {l : PolicyLedger} {e : PolicyExecutionState} {now : String}
    (hadm : Admitted c l e now) (command : ExecutionCommand) (next : PolicyExecutionState)
    (h : next.attempts = e.attempts) (intentID : String) :
    AttemptStep c l command intentID (attemptOf l intentID)
      (attemptOf ({ l with execution := some next } : PolicyLedger).committed intentID) := by
  rw [attemptOf_eq hadm.state, ← h]
  exact .kept

theorem Change.attempt {c : ExecutionCall} {l : PolicyLedger} {e next : PolicyExecutionState} {now : String}
    {command : ExecutionCommand} (hadm : Admitted c l e now)
    (h : Change c (l.observed now) (ExecutionCall.at_ e now) now command next) (intentID : String) :
    AttemptStep c l command intentID (attemptOf l intentID)
      (attemptOf ({ l with execution := some next } : PolicyLedger).committed intentID) := by
  cases h with
  | registered => exact attemptOf_kept hadm _ _ rfl intentID
  | prepared => exact attemptOf_kept hadm _ _ rfl intentID
  | activated => exact attemptOf_kept hadm _ _ rfl intentID
  | @held s q a hseal =>
    rw [attemptOf_set, Table.get?_set, attemptOf_eq hadm.state]
    by_cases hid : intentID = q.intentID
    · rw [if_pos hid, hid, show e.attempts.get? q.intentID = some a from hseal.attempt]
      exact .held hseal.state hseal.hold
    · rw [if_neg hid]
      exact .kept
  | @reserved s a epoch i r _ hnew =>
    rw [attemptOf_set, Table.get?_set, attemptOf_eq hadm.state]
    by_cases hid : intentID = a.reserve.intentID
    · rw [if_pos hid, hid, show e.attempts.get? a.reserve.intentID = none from hnew.first]
      refine .recorded ?_
      rw [hnew.fields]
      exact ExecutionCall.reservedAttempt_start ..
    · rw [if_neg hid]
      exact .kept
  | @started s q a epoch start hstart =>
    rw [attemptOf_set, Table.get?_set, attemptOf_eq hadm.state]
    by_cases hid : intentID = q.intentID
    · rw [if_pos hid, hid, show e.attempts.get? q.intentID = some a from hstart.attempt]
      exact .started hadm hstart rfl rfl
    · rw [if_neg hid]
      exact .kept

theorem executionStep_attempt (l : PolicyLedger) (step : ExecutionStep) (intentID : String) :
    AttemptStep step.call l step.command intentID (attemptOf l intentID) (attemptOf (executionStep l step) intentID) := by
  generalize executionStep l step = l', executionStep_effect l step = heffect
  cases heffect with
  | unchanged => exact .kept
  | initialized hnone hn _ =>
    subst hn
    rw [attemptOf, hnone]
    exact .kept
  | observed => rw [attemptOf_observed]; exact .kept
  | changed hadm hchange _ => exact Change.attempt hadm hchange intentID

/-! ## What a run keeps of an attempt -/

/-- What never changes of an attempt once it is recorded, and of its start once it is set. -/
structure AttemptKept (a a' : PolicyExecutionAttempt) : Prop where
  reserve : a'.reserve = a.reserve
  reserved : a'.reserved = a.reserved
  session : a'.sessionID = a.sessionID
  start : ∀ start, a.start = some start → a'.start = some start

def RecordKept (old new : Option PolicyExecutionAttempt) : Prop :=
  ∀ a, old = some a → ∃ a', new = some a' ∧ AttemptKept a a'

theorem AttemptKept.refl (a : PolicyExecutionAttempt) : AttemptKept a a := ⟨rfl, rfl, rfl, fun _ h => h⟩

theorem AttemptKept.trans {a b c : PolicyExecutionAttempt} (h : AttemptKept a b) (h' : AttemptKept b c) : AttemptKept a c :=
  ⟨h'.reserve.trans h.reserve, h'.reserved.trans h.reserved, h'.session.trans h.session,
    fun start hs => h'.start start (h.start start hs)⟩

theorem RecordKept.refl (old : Option PolicyExecutionAttempt) : RecordKept old old :=
  fun a h => ⟨a, h, AttemptKept.refl a⟩

theorem RecordKept.trans {a b c : Option PolicyExecutionAttempt} (h : RecordKept a b) (h' : RecordKept b c) :
    RecordKept a c := by
  intro x hx
  obtain ⟨y, hy, hxy⟩ := h x hx
  obtain ⟨z, hz, hyz⟩ := h' y hy
  exact ⟨z, hz, hxy.trans hyz⟩

theorem AttemptStep.recordKept {c : ExecutionCall} {l : PolicyLedger} {command : ExecutionCommand} {intentID : String}
    {old new : Option PolicyExecutionAttempt} (h : AttemptStep c l command intentID old new) : RecordKept old new := by
  cases h with
  | kept => exact RecordKept.refl _
  | recorded => intro a ha; cases ha
  | held => intro a ha; cases ha; exact ⟨_, rfl, rfl, rfl, rfl, fun _ hs => hs⟩
  | started _ hstart =>
    intro a ha
    cases ha
    refine ⟨_, rfl, rfl, rfl, rfl, fun start hs => ?_⟩
    rw [hstart.first] at hs
    cases hs

/-- A sealed attempt and one that is no longer reserved are final. -/
def Final (a : PolicyExecutionAttempt) : Prop := a.state ≠ .reserved ∨ a.hold ≠ none

theorem AttemptStep.final {c : ExecutionCall} {l : PolicyLedger} {command : ExecutionCommand} {intentID : String}
    {a : PolicyExecutionAttempt} {new : Option PolicyExecutionAttempt} (hfinal : Final a)
    (h : AttemptStep c l command intentID (some a) new) : new = some a := by
  cases h with
  | kept => rfl
  | held hstate hhold => exact absurd hfinal (by rw [Final, hstate, hhold]; simp)
  | started _ hstart => exact absurd hfinal (by rw [Final, hstart.state, hstart.hold]; simp)

theorem run_recordKept (l : PolicyLedger) (steps : List ExecutionStep) (intentID : String) :
    RecordKept (attemptOf l intentID) (attemptOf (run executionStep l steps) intentID) :=
  run_related (P := fun _ => True) (R := fun s t => RecordKept (attemptOf s intentID) (attemptOf t intentID))
    (fun _ _ _ => trivial) (fun s step _ => (executionStep_attempt s step intentID).recordKept)
    (fun _ => RecordKept.refl _) (fun _ _ _ h h' => h.trans h') trivial steps

theorem run_final {l : PolicyLedger} {intentID : String} {a : PolicyExecutionAttempt} (hfinal : Final a)
    (h : attemptOf l intentID = some a) (steps : List ExecutionStep) :
    attemptOf (run executionStep l steps) intentID = some a := by
  refine run_invariant (P := fun s => attemptOf s intentID = some a) (fun s step hs => ?_) h steps
  have := executionStep_attempt s step intentID
  rw [hs] at this
  exact this.final hfinal

/-! ## Answers to starts -/

/-- The successful answer of a step that starts the intent. -/
def startAnswer (intentID : String) (l : PolicyLedger) (step : ExecutionStep) : Option PolicyExecutionStartResult :=
  match step.command with
  | .commitStart s q =>
    if q.intentID = intentID then (step.call.commitStart s q l).1.toOption else none
  | _ => none

/-- All of them, in the order of the run. -/
def startAnswers (intentID : String) : PolicyLedger → List ExecutionStep → List PolicyExecutionStartResult
  | _, [] => []
  | l, step :: rest => (startAnswer intentID l step).toList ++ startAnswers intentID (executionStep l step) rest

theorem commitStart_ok {c : ExecutionCall} {s : PolicyExecutionSession} {q : PolicyExecutionStartRequest}
    {l l' : PolicyLedger} {answer : PolicyExecutionStartResult} (h : c.commitStart s q l = (.ok answer, l')) :
    ∃ a start, attemptOf l' q.intentID = some a ∧ a.start = some start ∧
      (answer = { start with delivery := .recovered } ∨
        answer = start ∧ (attemptOf l q.intentID).bind PolicyExecutionAttempt.start = none) := by
  obtain ⟨use, e, next, now, changed, hadmission, hadm, hu, hl⟩ := ExecutionCall.submit_ok h
  simp only [ExecutionCall.commitStartAdmission, bind_eq_ok] at hadmission
  obtain ⟨_, _, _, _, huse⟩ := hadmission
  cases huse
  rcases ExecutionCall.commitStartUse_eq_ok hu with ⟨_, rfl, a, start, ha, hstart, heq⟩ |
    ⟨hc, a, epoch, start, hstart, heq, rfl⟩
  · -- recovered: the attempt is there before and after
    cases heq
    refine ⟨a, start, ?_, hstart, Or.inl rfl⟩
    rcases hl with ⟨_, rfl⟩ | rfl
    · rw [attemptOf_eq hadm.state]
      exact ha
    · exact ha
  · cases heq
    rcases hl with ⟨hf, _⟩ | rfl
    · rw [hc] at hf; cases hf
    · refine ⟨startedAttempt a answer, answer, ?_, rfl, Or.inr ⟨rfl, ?_⟩⟩
      · rw [attemptOf_set]
        exact Table.get?_set_self _ _ _
      · rw [attemptOf_eq hadm.state, show e.attempts.get? q.intentID = some a from hstart.attempt]
        exact hstart.first

/-- An answer is the start that is recorded then, as recovered or as committed by this step. -/
theorem startAnswer_eq_some {intentID : String} {l : PolicyLedger} {step : ExecutionStep}
    {answer : PolicyExecutionStartResult} (h : startAnswer intentID l step = some answer) :
    ∃ a start, attemptOf (executionStep l step) intentID = some a ∧ a.start = some start ∧
      (answer = { start with delivery := .recovered } ∨
        answer = start ∧ (attemptOf l intentID).bind PolicyExecutionAttempt.start = none) := by
  obtain ⟨c, command⟩ := step
  unfold startAnswer at h
  split at h
  · rename_i s q hcommand
    cases hcommand
    split at h
    · rename_i hid
      cases hid
      cases hr : c.commitStart s q l with
      | mk r l' =>
        rw [hr] at h
        cases r with
        | error err => cases h
        | ok r =>
          cases h
          have hl : executionStep l ⟨c, .commitStart s q⟩ = l' := congrArg Prod.snd hr
          rw [hl]
          exact commitStart_ok hr
    · cases h
  · cases h

/-- After a start is recorded every answer recovers it. -/
theorem startAnswers_recorded {intentID : String} (steps : List ExecutionStep) :
    ∀ {l : PolicyLedger} {a : PolicyExecutionAttempt} {start : PolicyExecutionStartResult},
      attemptOf l intentID = some a → a.start = some start →
      ∀ answer ∈ startAnswers intentID l steps, answer = { start with delivery := .recovered } := by
  induction steps with
  | nil => intro l a start _ _ answer h; cases h
  | cons step rest ih =>
    intro l a start ha hstart answer hmem
    obtain ⟨a', ha', hkept⟩ := (executionStep_attempt l step intentID).recordKept a ha
    rcases List.mem_append.mp hmem with hhead | htail
    · obtain ⟨a'', start', ha'', hstart'', heq⟩ := startAnswer_eq_some (Option.mem_toList.mp hhead)
      rw [ha'] at ha''
      cases ha''
      rw [hkept.start start hstart] at hstart''
      cases hstart''
      rcases heq with heq | ⟨_, hnone⟩
      · exact heq
      · rw [ha, Option.bind_some, hstart] at hnone
        cases hnone
    · exact ih ha' (hkept.start start hstart) answer htail

theorem startAnswers_pairwise (intentID : String) (steps : List ExecutionStep) :
    ∀ l : PolicyLedger, (startAnswers intentID l steps).Pairwise
      fun first later => later = { first with delivery := .recovered } := by
  induction steps with
  | nil => exact fun _ => List.Pairwise.nil
  | cons step rest ih =>
    intro l
    rw [startAnswers]
    cases h : startAnswer intentID l step with
    | none => exact ih _
    | some answer =>
      obtain ⟨a, start, ha, hstart, heq⟩ := startAnswer_eq_some h
      refine List.pairwise_cons.mpr ⟨fun later hlater => ?_, ih _⟩
      rw [startAnswers_recorded rest ha hstart later hlater]
      rcases heq with heq | ⟨heq, _⟩ <;> rw [heq]

/-- For every intent, in any run of commands: what is recorded of its attempt is kept from any state on, every
success after the first is that one recovered, and at most one is a committed start. -/
theorem at_most_one_start_per_intent (l : PolicyLedger) (pre post : List ExecutionStep) (intentID : String) :
    RecordKept (attemptOf (run executionStep l pre) intentID)
        (attemptOf (run executionStep l (pre ++ post)) intentID) ∧
      (startAnswers intentID l (pre ++ post)).Pairwise
        (fun first later => later = { first with delivery := .recovered }) ∧
      ((startAnswers intentID l (pre ++ post)).filter fun answer =>
        answer.delivery = .committed ∧ answer.decision = .startCommitted).length ≤ 1 := by
  have hpair := startAnswers_pairwise intentID (pre ++ post) l
  refine ⟨?_, hpair, ?_⟩
  · rw [run_append]
    exact run_recordKept _ post intentID
  · have hcommitted := hpair.filter fun answer =>
      decide (answer.delivery = .committed ∧ answer.decision = .startCommitted)
    generalize hfiltered : (startAnswers intentID l (pre ++ post)).filter _ = committed at hcommitted ⊢
    cases committed with
    | nil => exact Nat.zero_le 1
    | cons first rest =>
      cases rest with
      | nil => exact Nat.le_refl 1
      | cons second rest =>
        have hsecond : second = { first with delivery := .recovered } :=
          (List.pairwise_cons.mp hcommitted).1 second List.mem_cons_self
        have hmem : second ∈ first :: second :: rest := List.mem_cons_of_mem _ List.mem_cons_self
        rw [← hfiltered] at hmem
        have := (List.mem_filter.mp hmem).2
        rw [decide_eq_true_eq, hsecond] at this
        cases this.1

end Desk
