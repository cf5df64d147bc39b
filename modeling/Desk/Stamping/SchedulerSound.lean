import Desk.Lib.Run
import Desk.Stamping.Scheduler

/-!
# What is skipped, and what a change is followed by

A stamp is left out only for a checkpoint that the last word on the stamps names,
a stamp is asked with the settings in force, and a confirmed change is followed by
an attempt at the next wake unless an attempt that read the settings before it
notes its time after it.
-/

namespace Desk

namespace Stamping

/-! ## The invariant -/

/-- Nothing the runtime answered is still to be noted, and no word and no settings are kept. -/
def Stage.plain : Stage → Bool
  | .knowing _ _ | .stamping _ | .answered _ => false
  | _ => true

/-- The answers that are still to be noted. -/
def Stage.pending : Stage → Nat
  | .answered _ => 1
  | _ => 0

def State.pending (s : State) : Nat := (s.turn.map fun a => a.stage.pending).getD 0

/-- What is known of a run is that run's answer. -/
def Known.Told (k : Known) (answers : List StampAnswer) : Prop :=
  k.asOf ≤ answers.length ∧ (k.byRun = true → ∃ a, (answers.take k.asOf).getLast? = some a ∧ a.word = some k.checkpoint)

/-- What a stage keeps. -/
def State.StageOk (s : State) (a : Attempt) : Prop :=
  match a.stage with
  | .knowing (some k) _ => k.checkpoint.digest ≠ "" → k.asOf = s.answers.length ∧ k.Told s.answers
  | .stamping now => s.settings = some now ∧ now.raw = a.settings.raw
  | .answered answer => s.answers.getLast? = some answer
  | _ => True

def Check.Ok (generation answers : Nat) : Check → Prop
  | .begun since => since ≤ generation
  | .read since _ asOf => since ≤ asOf ∧ asOf ≤ answers

structure Inv (s : State) : Prop where
  count : s.answers.length = s.scheduler.generation + s.pending
  stamped : ∀ k, s.scheduler.stamped = some k → k.checkpoint.digest ≠ "" →
    s.scheduler.generation ≤ k.asOf ∧ k.Told s.answers
  checks : ∀ c ∈ s.checks, c.Ok s.scheduler.generation s.answers.length
  turn : ∀ a, s.turn = some a → s.StageOk a

theorem Known.Told.append {k : Known} {answers : List StampAnswer} (h : k.Told answers) (a : StampAnswer) :
    k.Told (answers ++ [a]) := by
  refine ⟨h.1.trans (by simp), fun hrun => ?_⟩
  rw [List.take_append_of_le_length h.1]
  exact h.2 hrun

theorem Inv.start (now : Time) (settings : Option StampingSettings) (head : Option CheckpointHead)
    (stamps : Option (List UInt8)) : Inv (.start now settings head stamps) where
  count := rfl
  stamped := nofun
  checks := nofun
  turn := nofun

theorem Stage.pending_of_plain {stage : Stage} (h : stage.plain = true) : stage.pending = 0 := by
  cases stage <;> first | rfl | cases h

theorem stageOk_of_plain {s : State} {a : Attempt} (h : a.stage.plain = true) : s.StageOk a := by
  obtain ⟨requested, settings, now, stage⟩ := a
  cases stage with
  | knowing known head => cases h
  | stamping now => cases h
  | answered answer => cases h
  | _ => trivial

theorem pending_of_plain {s : State} (h : ∀ a, s.turn = some a → a.stage.plain = true) : s.pending = 0 := by
  unfold State.pending
  cases hturn : s.turn with
  | none => rfl
  | some a => exact Stage.pending_of_plain (h a hturn)

/-- What is known, the checks and the answers stay, and the turn is in a plain stage after no answer. -/
theorem Inv.plain {s s' : State} (h : Inv s) (hpending : s.pending = 0)
    (hgeneration : s'.scheduler.generation = s.scheduler.generation) (hstamped : s'.scheduler.stamped = s.scheduler.stamped)
    (hanswers : s'.answers = s.answers) (hchecks : s'.checks = s.checks)
    (hplain : ∀ a, s'.turn = some a → a.stage.plain = true) : Inv s' where
  count := by rw [hanswers, hgeneration, h.count, hpending, pending_of_plain hplain]
  stamped k hk := by
    rw [hstamped] at hk
    rw [hgeneration, hanswers]
    exact h.stamped k hk
  checks c hc := by
    rw [hchecks] at hc
    rw [hgeneration, hanswers]
    exact h.checks c hc
  turn a ha := stageOk_of_plain (hplain a ha)

/-- The attempt goes on to a plain stage. -/
theorem Inv.stage {s : State} (h : Inv s) (hpending : s.pending = 0) (a : Attempt) {stage : Stage}
    (hplain : stage.plain = true) : Inv (s.stage a stage) :=
  h.plain hpending rfl rfl rfl rfl fun b hb => by cases hb; exact hplain

theorem Inv.finish {s : State} (h : Inv s) (hpending : s.pending = 0) : Inv s.finish :=
  h.plain hpending rfl rfl rfl rfl nofun

theorem pending_zero {s : State} {a : Attempt} (hturn : s.turn = some a) (h : a.stage.pending = 0) : s.pending = 0 := by
  unfold State.pending
  rw [hturn]
  exact h

/-! ## The attempt in the turn -/

theorem inv_note {s : State} (h : Inv s) {a : Attempt} (hpending : s.pending = 0) : Inv (s.note a) := by
  unfold State.note
  by_cases hrequested : a.requested = true
  · rw [if_pos hrequested]
    by_cases hclosed : s.scheduler.closed = true
    · rw [if_pos hclosed]
      exact h.finish hpending
    · rw [if_neg hclosed]
      exact h.plain hpending rfl rfl rfl rfl fun b hb => by cases hb; rfl
  · rw [if_neg hrequested]
    exact h.plain hpending rfl rfl rfl rfl fun b hb => by cases hb; rfl

/-- No answer is pending, so what is known with its digest is as of the last. -/
theorem inv_known {s : State} (h : Inv s) {a : Attempt} (hpending : s.pending = 0) (head : CheckpointHead) :
    Inv (s.stage a (.knowing s.scheduler.stamped head)) where
  count := by
    show s.answers.length = s.scheduler.generation + 0
    rw [h.count, hpending]
  stamped := h.stamped
  checks := h.checks
  turn b hb := by
    cases hb
    show State.StageOk _ _
    unfold State.StageOk
    cases hk : s.scheduler.stamped with
    | none => trivial
    | some k =>
      intro hdigest
      obtain ⟨hasOf, htold⟩ := h.stamped k hk hdigest
      have hcount := h.count
      rw [hpending] at hcount
      exact ⟨Nat.le_antisymm htold.1 (hcount.trans_le hasOf), htold⟩

theorem inv_compare {s : State} (h : Inv s) {a : Attempt} (hpending : s.pending = 0) (known : Option Known)
    (head : CheckpointHead) (readable : Bool) : Inv (s.compare a known head readable) := by
  unfold State.compare
  split
  · split
    · exact ⟨h.count, h.stamped, h.checks, h.turn⟩
    · exact h.finish hpending
    · exact h.stage hpending a rfl
  · exact h.stage hpending a rfl

theorem inv_reread {s : State} (h : Inv s) {a : Attempt} (hpending : s.pending = 0) (readable : Bool) :
    Inv (s.reread a readable) := by
  unfold State.reread
  split
  · next now hread =>
    by_cases hsame : now.raw = a.settings.raw
    · rw [if_pos hsame]
      refine ⟨?_, h.stamped, h.checks, fun b hb => ?_⟩
      · show s.answers.length = s.scheduler.generation + 0
        rw [h.count, hpending]
      · cases hb
        refine ⟨?_, hsame⟩
        unfold State.readStamping at hread
        split at hread
        · exact Reading.found.inj hread
        · cases hread
    · rw [if_neg hsame]
      exact h.finish hpending
  · exact h.finish hpending

theorem inv_answer {s : State} (h : Inv s) {a : Attempt} (hpending : s.pending = 0) (answer : StampAnswer) :
    Inv { s.stage a (.answered answer) with answers := s.answers ++ [answer] } where
  count := by
    show (s.answers ++ [answer]).length = s.scheduler.generation + 1
    rw [List.length_append, h.count, hpending]
    rfl
  stamped k hk hdigest := ⟨(h.stamped k hk hdigest).1, (h.stamped k hk hdigest).2.append answer⟩
  checks c hc := by
    have hold := h.checks c hc
    cases c with
    | begun since => exact hold
    | read since word asOf => exact ⟨hold.1, hold.2.trans (by simp)⟩
  turn b hb := by
    cases hb
    exact List.getLast?_concat

/-- A run's word is noted: what is known is what the last answer named. -/
theorem inv_know {s : State} (h : Inv s) {answer : StampAnswer} (hlast : s.answers.getLast? = some answer)
    (hpending : s.pending = 1) :
    Inv { s with scheduler := s.scheduler.knowStamped answer.word s.answers.length }.finish where
  count := by
    show s.answers.length = s.scheduler.generation + 1 + 0
    rw [h.count, hpending]
  stamped k hk _ := by
    obtain ⟨c, hc, rfl⟩ := Option.map_eq_some_iff.mp hk
    obtain ⟨hword, -⟩ := Option.filter_eq_some_iff.mp hc
    have hcount : s.scheduler.generation + 1 ≤ s.answers.length := by rw [h.count, hpending]
    have htaken : (s.answers.take s.answers.length).getLast? = some answer := by rw [List.take_length, hlast]
    exact ⟨hcount, le_rfl, fun _ => ⟨answer, htaken, hword⟩⟩
  checks c hc := by
    have hold := h.checks c hc
    have hcount : s.scheduler.generation + 1 = s.answers.length := by rw [h.count, hpending]
    cases c with
    | begun since => exact Nat.le_succ_of_le hold
    | read since word asOf => exact hold
  turn := nofun

theorem inv_attempt {s : State} (h : Inv s) {a : Attempt} (hturn : s.turn = some a) (act : AttemptStep) :
    Inv (s.attempt a act) := by
  obtain ⟨requested, settings, now, stage⟩ := a
  cases act with
  | note =>
    cases stage with
    | taken => exact inv_note h (pending_zero hturn rfl)
    | _ => exact h
  | runtime ready =>
    cases stage with
    | noted =>
      cases ready with
      | true => exact h.stage (pending_zero hturn rfl) _ rfl
      | false => exact h.finish (pending_zero hturn rfl)
    | _ => exact h
  | head readable =>
    cases stage with
    | asked =>
      simp only [State.attempt]
      split
      · exact h.stage (pending_zero hturn rfl) _ rfl
      · exact h.finish (pending_zero hturn rfl)
    | _ => exact h
  | known =>
    cases stage with
    | headed head => exact inv_known h (pending_zero hturn rfl) head
    | _ => exact h
  | compare readable =>
    cases stage with
    | knowing known head => exact inv_compare h (pending_zero hturn rfl) known head readable
    | _ => exact h
  | reread readable =>
    cases stage with
    | checked => exact inv_reread h (pending_zero hturn rfl) readable
    | _ => exact h
  | answer answer =>
    cases stage with
    | stamping now => exact inv_answer h (pending_zero hturn rfl) answer
    | _ => exact h
  | know =>
    cases stage with
    | answered answer =>
      have hpending : s.pending = 1 := by rw [State.pending, hturn]; rfl
      exact inv_know h (h.turn _ hturn) hpending
    | _ => exact h

/-! ## The checks -/

/-- Only the checks change. -/
theorem Inv.withChecks {s : State} (h : Inv s) {checks : List Check}
    (hall : ∀ c ∈ checks, c.Ok s.scheduler.generation s.answers.length) : Inv { s with checks := checks } :=
  ⟨h.count, h.stamped, hall, h.turn⟩

/-- A check's word is later than every answer there was, where the runs' count is still the one it began at. -/
theorem stamped_knowChecked {st : Scheduler} {answers : List StampAnswer} {checkpoint : Option CheckpointHead}
    {since asOf : Nat} (hsince : since ≤ asOf) (hasOf : asOf ≤ answers.length)
    (h : ∀ k, st.stamped = some k → k.checkpoint.digest ≠ "" → st.generation ≤ k.asOf ∧ k.Told answers) (k : Known)
    (hk : (st.knowChecked checkpoint since asOf).stamped = some k) (hdigest : k.checkpoint.digest ≠ "") :
    st.generation ≤ k.asOf ∧ k.Told answers := by
  unfold Scheduler.knowChecked at hk
  split at hk
  · cases hk
  · next c _ =>
    by_cases hsame : st.generation = since
    · rw [if_pos hsame] at hk
      cases hk
      exact ⟨hsame ▸ hsince, hasOf, nofun⟩
    · rw [if_neg hsame] at hk
      split at hk
      · split at hk
        · -- lowered, it is known without its digest
          cases hk
          exact absurd rfl hdigest
        · exact h k hk hdigest
      · exact h k hk hdigest

theorem generation_knowChecked (st : Scheduler) (checkpoint : Option CheckpointHead) (since asOf : Nat) :
    (st.knowChecked checkpoint since asOf).generation = st.generation := by
  unfold Scheduler.knowChecked
  repeat' split
  all_goals rfl

theorem inv_check {s : State} (h : Inv s) (i : Nat) (act : CheckStep) : Inv (s.check i act) := by
  cases act with
  | read passed report =>
    simp only [State.check]
    split
    · next since hget =>
      refine h.withChecks fun c hc => ?_
      rcases List.mem_or_eq_of_mem_set hc with hold | rfl
      · exact h.checks c hold
      · have hbegun : since ≤ s.scheduler.generation := h.checks _ (List.mem_of_getElem? hget)
        exact ⟨hbegun.trans (h.count ▸ Nat.le_add_right _ _), le_rfl⟩
    · exact h
  | know =>
    simp only [State.check]
    split
    · next since word asOf hget =>
      obtain ⟨hsince, hasOf⟩ := h.checks _ (List.mem_of_getElem? hget)
      have hgeneration := generation_knowChecked s.scheduler word since asOf
      refine ⟨?_, fun k hk hdigest => ?_, fun c hc => ?_, h.turn⟩
      · rw [hgeneration]
        exact h.count
      · rw [hgeneration]
        exact stamped_knowChecked hsince hasOf h.stamped k hk hdigest
      · rw [hgeneration]
        exact h.checks c (List.mem_of_mem_eraseIdx hc)
    · exact h.withChecks fun c hc => h.checks c (List.mem_of_mem_eraseIdx hc)
    · exact h
  | fail => exact h.withChecks fun c hc => h.checks c (List.mem_of_mem_eraseIdx hc)

/-! ## Every step -/

theorem inv_wake {s : State} (h : Inv s) (act : WakeStep) : Inv (s.wake act) := by
  cases act with
  | read readable =>
    simp only [State.wake]
    split <;> exact ⟨h.count, h.stamped, h.checks, h.turn⟩
  | decide =>
    simp only [State.wake]
    split <;> exact ⟨h.count, h.stamped, h.checks, h.turn⟩
  | turn =>
    simp only [State.wake]
    split
    · split
      · exact ⟨h.count, h.stamped, h.checks, h.turn⟩
      · next hfree =>
        have hnone := Option.not_isSome_iff_eq_none.mp hfree
        have hpending : s.pending = 0 := by rw [State.pending, hnone]; rfl
        exact h.plain hpending rfl rfl rfl rfl fun b hb => by cases hb; rfl
    · exact h

theorem inv_requestTurn {s : State} (h : Inv s) (i : Nat) : Inv (s.requestTurn i) := by
  unfold State.requestTurn
  split
  · cases hturn : s.turn with
    | some a =>
      have hcount := h.count
      rw [State.pending, hturn] at hcount
      exact ⟨hcount, h.stamped, h.checks, fun b hb => h.turn b (hturn.trans hb)⟩
    | none =>
      have hpending : s.pending = 0 := by rw [State.pending, hturn]; rfl
      exact h.plain hpending rfl rfl rfl rfl fun b hb => by cases hb; rfl
  · exact h

/-- What holds the settings keeps them from being changed. -/
theorem inv_change {s : State} (h : Inv s) (settings : Option StampingSettings) (confirmed : Bool) :
    Inv (s.change settings confirmed) := by
  unfold State.change
  by_cases hheld : s.held = true
  · rw [if_pos hheld]
    exact h
  · rw [if_neg hheld]
    refine ⟨h.count, h.stamped, h.checks, fun a ha => ?_⟩
    have hold := h.turn a ha
    unfold State.StageOk at hold ⊢
    cases hstage : a.stage with
    | stamping now =>
      refine absurd ?_ hheld
      have ha : s.turn = some a := ha
      rw [State.held, ha, Option.any_some, hstage, Bool.or_true]
    | knowing known head =>
      rw [hstage] at hold
      cases known with
      | none => trivial
      | some k => exact hold
    | _ =>
      rw [hstage] at hold
      exact hold

theorem inv_step {s : State} (h : Inv s) (act : Act) : Inv (step s act) := by
  unfold step
  split
  · exact h
  · cases act with
    | wake w => exact inv_wake h w
    | attempt a =>
      dsimp only
      split
      · next attempt hturn => exact inv_attempt h hturn a
      · exact h
    | requestTurn i => exact inv_requestTurn h i
    | request readable =>
      dsimp only [State.request]
      split
      · exact ⟨h.count, h.stamped, h.checks, h.turn⟩
      · exact h
    | change settings confirmed => exact inv_change h settings confirmed
    | settingsChanged =>
      dsimp only [State.settingsChanged]
      split
      · exact h
      · exact ⟨h.count, h.stamped, h.checks, h.turn⟩
    | checkBegin =>
      refine h.withChecks fun c hc => ?_
      rcases List.mem_append.mp hc with hold | hnew
      · exact h.checks c hold
      · rw [List.mem_singleton.mp hnew]
        exact le_rfl
    | check i c => exact inv_check h i c
    | _ => exact ⟨h.count, h.stamped, h.checks, h.turn⟩

theorem run_inv {s : State} (h : Inv s) (as : List Act) : Inv (run step s as) :=
  run_invariant (P := Inv) (fun _ a hi => inv_step hi a) h as

/-! ## What is skipped -/

theorem sameCheckpoint_eq {known : Option CheckpointHead} {head : CheckpointHead} (h : sameCheckpoint known head = true) :
    known = some head ∧ head.identity ≠ "" ∧ 1 ≤ head.sequence ∧ head.digest ≠ "" := by
  obtain ⟨k, hk, hsame⟩ := (Option.any_eq_true _ _).mp h
  simp only [Bool.and_eq_true, bne_iff_ne, beq_iff_eq, decide_eq_true_eq] at hsame
  obtain ⟨⟨⟨⟨⟨hnamed, hidentity⟩, hfirst⟩, hsequence⟩, hdigest⟩, hsame⟩ := hsame
  obtain ⟨identity, sequence, digest⟩ := k
  obtain ⟨identity', sequence', digest'⟩ := head
  dsimp only at *
  subst hidentity hsequence hsame
  exact ⟨hk, hnamed, hfirst, hdigest⟩

theorem stampLine_of_names {line : List UInt8} {checkpoint : CheckpointHead} (h : stampLineNames line checkpoint = true) :
    stampLine line = some checkpoint := by
  obtain ⟨named, hnamed, hsame⟩ := (Option.any_eq_true _ _).mp h
  obtain ⟨heq, -⟩ := sameCheckpoint_eq hsame
  rw [hnamed, Option.some.inj heq]

theorem linesHold_true {checkpoint : CheckpointHead} {lines : List (List UInt8)} (h : linesHold checkpoint lines = some true) :
    ∃ line ∈ lines, stampLine line = some checkpoint := by
  induction lines with
  | nil => cases h
  | cons line rest ih =>
    rw [linesHold] at h
    split at h
    · cases h
    · split at h
      · next hnames => exact ⟨line, List.mem_cons_self, stampLine_of_names hnames⟩
      · obtain ⟨line', hmem, hline⟩ := ih h
        exact ⟨line', List.mem_cons_of_mem line hmem, hline⟩

/-- Where the comparison leaves out the stamp, the head is what is known, and the stamps file has a line for it. -/
theorem compare_skips {s : State} {a : Attempt} (hturn : s.turn = some a) {known : Option Known} {head : CheckpointHead}
    {readable : Bool} (h : (s.compare a known head readable).turn = none) :
    sameCheckpoint (known.map Known.checkpoint) head = true ∧
      ∃ file line, readable = true ∧ s.stamps = some file ∧ line ∈ wholeLines file ∧ stampLine line = some head := by
  unfold State.compare at h
  split at h
  · next hsame =>
    refine ⟨hsame, ?_⟩
    split at h
    · rw [hturn] at h
      cases h
    · next hholds =>
      unfold stampsHold at hholds
      split at hholds
      · cases hholds
      · next file hfile =>
        obtain ⟨line, hmem, hline⟩ := linesHold_true hholds
        cases readable with
        | true => exact ⟨file, line, rfl, hfile, hmem, hline⟩
        | false => cases hfile
    · cases h
  · cases h

/-- A scheduled attempt leaves out the stamp only for a head that is what is known, as of the last answer of the
runtime to a stamp, and that the stamps file has a line for when it is looked at. -/
def State.SkipsOnlyStamped (s : State) : Prop :=
  ∀ a known head readable, s.turn = some a → a.stage = .knowing known head →
    (s.compare a known head readable).turn = none →
      ∃ k, known = some k ∧ k.checkpoint = head ∧ head.identity ≠ "" ∧ 1 ≤ head.sequence ∧ head.digest ≠ "" ∧
        k.asOf = s.answers.length ∧
        (k.byRun = true → ∃ answer, s.answers.getLast? = some answer ∧ answer.word = some head) ∧
        ∃ file line, readable = true ∧ s.stamps = some file ∧ line ∈ wholeLines file ∧ stampLine line = some head

theorem Inv.skipsOnlyStamped {s : State} (h : Inv s) : s.SkipsOnlyStamped := by
  intro a known head readable hturn hstage hskips
  obtain ⟨hsame, hline⟩ := compare_skips hturn hskips
  obtain ⟨hmap, hidentity, hsequence, hdigest⟩ := sameCheckpoint_eq hsame
  obtain ⟨k, rfl, rfl⟩ := Option.map_eq_some_iff.mp hmap
  have hok := h.turn a hturn
  rw [State.StageOk, hstage] at hok
  obtain ⟨hasOf, -, hrun⟩ := hok hdigest
  refine ⟨k, rfl, rfl, hidentity, hsequence, hdigest, hasOf, fun hbyRun => ?_, hline⟩
  have hlast := hrun hbyRun
  rw [hasOf, List.take_length] at hlast
  exact hlast

/-- A stamp is asked with the settings in force, which are those the attempt read first. -/
def State.StampsAsSet (s : State) : Prop :=
  ∀ a now, s.turn = some a → a.stage = .stamping now → s.settings = some now ∧ now.raw = a.settings.raw

theorem Inv.stampsAsSet {s : State} (h : Inv s) : s.StampsAsSet := by
  intro a now hturn hstage
  have hok := h.turn a hturn
  rw [State.StageOk, hstage] at hok
  exact hok

/-- After a stamp, what is known is the checkpoint the runtime answered is stamped, and nothing where it did not
stamp. -/
def State.KnowsTheAnswer (s : State) : Prop :=
  ∀ a answer, s.turn = some a → a.stage = .answered answer →
    (s.attempt a .know).scheduler.stamped.map Known.checkpoint = answer.word.filter CheckpointHead.named

theorem State.knowsTheAnswer (s : State) : s.KnowsTheAnswer := by
  intro a answer _ hstage
  rw [State.attempt, hstage]
  show Option.map Known.checkpoint (Option.map _ (answer.word.filter CheckpointHead.named)) = _
  rw [Option.map_map]
  exact Option.map_id'

/-! ## What a change is followed by -/

/-- While a confirmed change is not acted on, no attempt is noted, so that every wake is due. -/
def State.Seen (s : State) : Prop := s.unseen = true → s.scheduler.lastAttempt = none

/-- A time that is noted after a change was confirmed is of an attempt with the settings in force. -/
def Noted (s : State) : Act → Prop
  | .attempt .note => ∀ a, s.turn = some a → a.stage = .taken → ¬(a.requested = true ∧ s.scheduler.closed = true) →
      s.unseen = true → s.settings = some a.settings
  | _ => True

theorem lastAttempt_knowChecked (st : Scheduler) (checkpoint : Option CheckpointHead) (since asOf : Nat) :
    (st.knowChecked checkpoint since asOf).lastAttempt = st.lastAttempt := by
  unfold Scheduler.knowChecked
  repeat' split
  all_goals rfl

theorem seen_note {s : State} (h : s.Seen) {a : Attempt}
    (hnoted : ¬(a.requested = true ∧ s.scheduler.closed = true) → s.unseen = true → s.settings = some a.settings) :
    (s.note a).Seen := by
  unfold State.note
  have hacted : ¬(a.requested = true ∧ s.scheduler.closed = true) →
      (s.unseen && decide (s.settings ≠ some a.settings)) = false := by
    intro hopen
    cases hunseen : s.unseen with
    | false => rfl
    | true => exact decide_eq_false (not_not.mpr (hnoted hopen hunseen))
  by_cases hrequested : a.requested = true
  · rw [if_pos hrequested]
    by_cases hclosed : s.scheduler.closed = true
    · rw [if_pos hclosed]
      exact h
    · rw [if_neg hclosed]
      intro hunseen
      rw [hacted fun hboth => hclosed hboth.2] at hunseen
      cases hunseen
  · rw [if_neg hrequested]
    intro hunseen
    rw [hacted fun hboth => hrequested hboth.1] at hunseen
    cases hunseen

theorem seen_attempt {s : State} (h : s.Seen) {a : Attempt} (act : AttemptStep)
    (hnoted : act = .note → a.stage = .taken → ¬(a.requested = true ∧ s.scheduler.closed = true) → s.unseen = true →
      s.settings = some a.settings) : (s.attempt a act).Seen := by
  cases act with
  | note =>
    simp only [State.attempt]
    split
    · next hstage => exact seen_note h (hnoted rfl hstage)
    · exact h
  | compare readable =>
    simp only [State.attempt, State.compare]
    repeat' split
    all_goals exact h
  | reread readable =>
    simp only [State.attempt, State.reread]
    repeat' split
    all_goals exact h
  | _ =>
    simp only [State.attempt]
    repeat' split
    all_goals exact h

theorem seen_step {s : State} (h : s.Seen) {act : Act} (hnoted : Noted s act) : (step s act).Seen := by
  unfold step
  split
  · exact h
  · cases act with
    | wake w =>
      cases w <;> simp only [State.wake] <;> repeat' split
      all_goals exact h
    | attempt a =>
      dsimp only
      split
      · next attempt hturn =>
        refine seen_attempt h a fun hnote hstage => ?_
        subst hnote
        exact hnoted attempt hturn hstage
      · exact h
    | request readable =>
      dsimp only [State.request]
      split <;> exact h
    | requestTurn i =>
      dsimp only [State.requestTurn]
      split <;> exact h
    | change settings confirmed =>
      dsimp only [State.change]
      split <;> exact h
    | settingsChanged =>
      dsimp only [State.settingsChanged]
      split
      · exact h
      · exact fun _ => rfl
    | check i c =>
      cases c with
      | know =>
        dsimp only [State.check]
        split
        · exact fun hunseen => (lastAttempt_knowChecked _ _ _ _).trans (h hunseen)
        · exact h
        · exact h
      | read passed report =>
        dsimp only [State.check]
        split <;> exact h
      | fail => exact h
    | _ => exact h

/-- While a confirmed change is not acted on, a wake that has read settings is due. -/
def State.ActsOnChanges (s : State) : Prop :=
  s.unseen = true → s.crashed = false → s.scheduler.closed = false →
    ∀ settings, s.loop = .woke (.found (some settings)) → (step s (.wake .decide)).loop = .due settings s.now

theorem State.Seen.actsOnChanges {s : State} (h : s.Seen) : s.ActsOnChanges := by
  intro hunseen hcrashed hclosed settings hloop
  have hdue : s.scheduler.due settings s.now = true := by
    rw [Scheduler.due, h hunseen, hclosed]
    rfl
  simp [step, hcrashed, State.wake, hloop, hdue]

/-! ## Runs -/

/-- In every run, whatever comes between the steps, in which no time of an attempt that read earlier settings is
noted after a change was confirmed. -/
theorem stamps_only_what_is_not_known (now : Time) (settings : Option StampingSettings) (head : Option CheckpointHead)
    (stamps : Option (List UInt8)) {as : List Act} (hnoted : Along step Noted (.start now settings head stamps) as) :
    let s := run step (.start now settings head stamps) as
    s.SkipsOnlyStamped ∧ s.StampsAsSet ∧ s.KnowsTheAnswer ∧ s.ActsOnChanges := by
  intro s
  have hi : Inv s := run_inv (Inv.start now settings head stamps) as
  have hseen : s.Seen :=
    run_invariant_along (P := State.Seen) (fun _ _ h hn => seen_step h hn) (fun h => by cases h) hnoted
  exact ⟨hi.skipsOnlyStamped, hi.stampsAsSet, s.knowsTheAnswer, hseen.actsOnChanges⟩

namespace Sample

def settings (authority : String) : StampingSettings := ⟨bytesOf authority, authority, 60⟩

def first : StampingSettings := settings "first"

def second : StampingSettings := settings "second"

def started : State := .start 0 (some first) none none

/-- A change is confirmed before the loop reads the settings. -/
def before : List Act :=
  [.change (some second) true, .settingsChanged, .wake (.read true), .wake .decide, .wake .turn, .attempt .note]

/-- A change is confirmed between the wake's decision and its note of the attempt. -/
def between : List Act :=
  [.wake (.read true), .wake .decide, .wake .turn, .change (some second) true, .settingsChanged, .attempt .note,
    .attempt (.runtime true), .attempt (.head true), .wake (.read true)]

end Sample

theorem stamps_only_what_is_not_known_sample :
    (run step Sample.started Sample.before).StampsAsSet ∧ (run step Sample.started Sample.before).ActsOnChanges :=
  have hnoted : Along step Noted Sample.started Sample.before :=
    ⟨trivial, trivial, trivial, trivial, trivial, fun _ ha _ _ _ => by cases ha; rfl, trivial⟩
  have h := stamps_only_what_is_not_known 0 (some Sample.first) none none hnoted
  ⟨h.2.1, h.2.2.2⟩

/-- The wake after the change is not due. -/
theorem change_lost_between :
    ¬∀ now settings head stamps as, (run step (.start now settings head stamps) as).ActsOnChanges := by
  intro h
  have hdue := h 0 (some Sample.first) none none Sample.between rfl rfl rfl Sample.second rfl
  cases hdue

end Stamping

end Desk
