import Desk.Research.Budget
import Mathlib.Algebra.BigOperators.Group.List.Basic

/-!
# What a transaction does

Every transaction of the journal either begins one attempt, retries one, deals
with the budget, or is quiet: it starts nothing, and an attempt that ended
stays as it ended.
-/

namespace Desk.Research

/-! ## One attempt -/

/-- What a quiet transaction leaves of an attempt. -/
structure Keeps (a a' : Attempt) : Prop where
  id : a'.id = a.id
  kind : a'.kind = a.kind
  digest : a'.digest = a.digest
  number : a'.number = a.number
  retryOf : a'.retryOf = a.retryOf
  retriedBy : a'.retriedBy = a.retriedBy
  final : a.state = .completed ∨ a.state = .refused → a'.state = a.state
  failed : a.state = .uncertain → a'.state = .uncertain ∧ a'.problemCode = a.problemCode ∧
    a'.acquisitionRefusal = a.acquisitionRefusal
  idle : a.state = .notStarted → a'.state = .notStarted
  reserved : 0 ≤ a.reservedBytes → 0 ≤ a'.reservedBytes ∧ a'.reservedBytes ≤ a.reservedBytes

theorem Keeps.refl (a : Attempt) : Keeps a a where
  id := rfl
  kind := rfl
  digest := rfl
  number := rfl
  retryOf := rfl
  retriedBy := rfl
  final _ := rfl
  failed h := ⟨h, rfl, rfl⟩
  idle h := h
  reserved h := ⟨h, Int.le_refl _⟩

/-- An attempt that is not over is free to end in any state. -/
theorem Keeps.of_open {a a' : Attempt} (hopen : a.state = .started ∨ a.state = .waiting) (hid : a'.id = a.id)
    (hk : a'.kind = a.kind) (hd : a'.digest = a.digest) (hn : a'.number = a.number) (ho : a'.retryOf = a.retryOf)
    (hb : a'.retriedBy = a.retriedBy) (hr : 0 ≤ a.reservedBytes → 0 ≤ a'.reservedBytes ∧ a'.reservedBytes ≤ a.reservedBytes) :
    Keeps a a' where
  id := hid
  kind := hk
  digest := hd
  number := hn
  retryOf := ho
  retriedBy := hb
  final h := by rcases hopen with h' | h' <;> simp [h'] at h
  failed h := by rcases hopen with h' | h' <;> simp [h'] at h
  idle h := by rcases hopen with h' | h' <;> simp [h'] at h
  reserved := hr

theorem finishAttempt_spec {result : List UInt8} {problem now : String} {a a' : Attempt}
    (h : finishAttempt result problem now a = .ok a') :
    (a.state = .started ∨ a.state = .waiting) ∧
      ∃ state problem result, a' = { a with reservedBytes := 0, finishedAt := now, problem, state, result } := by
  unfold finishAttempt at h
  split_ifs at h with h1 h2 h3 h4
  all_goals
    cases h
    exact ⟨by tauto, _, _, _, rfl⟩

theorem finishAttempt_keeps {result : List UInt8} {problem now : String} {a a' : Attempt}
    (h : finishAttempt result problem now a = .ok a') : Keeps a a' := by
  obtain ⟨hopen, state, problem, result, rfl⟩ := finishAttempt_spec h
  exact .of_open hopen rfl rfl rfl rfl rfl rfl (fun h => ⟨Int.le_refl _, h⟩)

theorem refuseAttempt_keeps {result : List UInt8} {code problem now : String} {a a' : Attempt}
    (h : refuseAttempt result code problem now a = .ok a') : Keeps a a' ∧ a'.reservedBytes = 0 := by
  unfold refuseAttempt at h
  split_ifs at h with h1 h2
  cases h
  push Not at h1
  exact ⟨.of_open (.inl h1.1) rfl rfl rfl rfl rfl rfl (fun h => ⟨Int.le_refl _, h⟩), rfl⟩

theorem admitAttempt_keeps {waiting : Bool} {a a' : Attempt} (h : admitAttempt waiting a = .ok a') : Keeps a a' := by
  unfold admitAttempt at h
  by_cases h1 : a.kind ≠ .model ∨ (a.state ≠ .started ∧ a.state ≠ .waiting)
  · rw [if_pos h1] at h
    cases h
  rw [if_neg h1] at h
  cases h
  exact .of_open (by tauto) rfl rfl rfl rfl rfl rfl (fun h => ⟨h, Int.le_refl _⟩)

theorem noteFailure_fields (error : Option CallError) (a : Attempt) :
    (noteFailure error a).id = a.id ∧ (noteFailure error a).kind = a.kind ∧ (noteFailure error a).digest = a.digest ∧
      (noteFailure error a).number = a.number ∧ (noteFailure error a).retryOf = a.retryOf ∧
      (noteFailure error a).retriedBy = a.retriedBy ∧ (noteFailure error a).reservedBytes = a.reservedBytes := by
  unfold noteFailure
  cases error.bind (·.failure) <;> cases error.bind (·.refusal) <;> simp

theorem recoverAttempt_keeps (now : String) (a : Attempt) : Keeps a (recoverAttempt now a) := by
  constructor <;> (cases hs : a.state <;> simp [recoverAttempt, hs])

/-! ## One attempt among others -/

theorem changeAttempt_split {id : String} {change : Attempt → Except String Attempt} {l l' : List Attempt}
    (h : changeAttempt id change l = .ok l') :
    ∃ pre a a' post, l = pre ++ a :: post ∧ l' = pre ++ a' :: post ∧ change a = .ok a' ∧ a.id = id ∧
      ∀ x ∈ pre, x.id ≠ id := by
  induction l generalizing l' with
  | nil => cases h
  | cons b rest ih =>
    unfold changeAttempt at h
    split_ifs at h with hb
    · cases hc : change b with
      | error e =>
        rw [hc] at h
        cases h
      | ok b' =>
        rw [hc] at h
        cases h
        exact ⟨[], b, b', rest, rfl, rfl, hc, hb, by simp⟩
    · cases hc : changeAttempt id change rest with
      | error e =>
        rw [hc] at h
        cases h
      | ok rest' =>
        rw [hc] at h
        cases h
        obtain ⟨pre, a, a', post, rfl, rfl, hch, hid, hpre⟩ := ih hc
        refine ⟨b :: pre, a, a', post, rfl, rfl, hch, hid, ?_⟩
        intro x hx
        obtain rfl | hx := List.mem_cons.mp hx
        · exact hb
        · exact hpre x hx

theorem forall₂_split {R : Attempt → Attempt → Prop} (refl : ∀ a, R a a) (pre post : List Attempt) {a a' : Attempt}
    (h : R a a') : List.Forall₂ R (pre ++ a :: post) (pre ++ a' :: post) := by
  have hself : ∀ l : List Attempt, List.Forall₂ R l l := fun l => List.forall₂_same.mpr fun a _ => refl a
  exact List.rel_append (hself pre) (.cons h (hself post))

theorem changeAttempt_keeps {id : String} {change : Attempt → Except String Attempt} {l l' : List Attempt}
    (h : changeAttempt id change l = .ok l') (keeps : ∀ a a', change a = .ok a' → Keeps a a') :
    List.Forall₂ Keeps l l' := by
  obtain ⟨pre, a, a', post, rfl, rfl, hc, -, -⟩ := changeAttempt_split h
  exact forall₂_split Keeps.refl pre post (keeps a a' hc)

theorem noteAttempt_keeps (note id : String) (l : List Attempt) : List.Forall₂ Keeps l (noteAttempt note id l) := by
  induction l with
  | nil => exact .nil
  | cons a rest ih =>
    unfold noteAttempt
    split_ifs
    · exact .cons ⟨rfl, rfl, rfl, rfl, rfl, rfl, fun _ => rfl, fun h => ⟨h, rfl, rfl⟩, fun h => h,
        fun h => ⟨h, Int.le_refl _⟩⟩ (List.forall₂_same.mpr fun a _ => .refl a)
    · exact .cons (.refl a) ih

theorem Keeps.trans {a b c : Attempt} (h : Keeps a b) (h' : Keeps b c) : Keeps a c where
  id := h'.id.trans h.id
  kind := h'.kind.trans h.kind
  digest := h'.digest.trans h.digest
  number := h'.number.trans h.number
  retryOf := h'.retryOf.trans h.retryOf
  retriedBy := h'.retriedBy.trans h.retriedBy
  final hf := by
    have hb := h.final hf
    exact (h'.final (by rwa [hb])).trans hb
  failed hf := by
    obtain ⟨hs, hp, ha⟩ := h.failed hf
    obtain ⟨hs', hp', ha'⟩ := h'.failed hs
    exact ⟨hs', hp'.trans hp, ha'.trans ha⟩
  idle hi := h'.idle (h.idle hi)
  reserved hr := by
    obtain ⟨h0, hle⟩ := h.reserved hr
    obtain ⟨h0', hle'⟩ := h'.reserved h0
    exact ⟨h0', Int.le_trans hle' hle⟩

theorem keeps_trans {l m n : List Attempt} (h : List.Forall₂ Keeps l m) (h' : List.Forall₂ Keeps m n) :
    List.Forall₂ Keeps l n := by
  induction h generalizing n with
  | nil => exact h'
  | cons hab _ ih =>
    cases h' with
    | cons hbc hrest => exact .cons (hab.trans hbc) (ih hrest)

theorem removeResearchRetry_keeps (run : Run) (after note : String) :
    List.Forall₂ Keeps run.attempts (removeResearchRetry run after note).attempts := by
  have hself : ∀ l : List Attempt, List.Forall₂ Keeps l l := fun l => List.forall₂_same.mpr fun a _ => .refl a
  have hfold : ∀ (removed : List PendingRetry) (l : List Attempt),
      List.Forall₂ Keeps l (removed.foldl (fun attempts p => noteAttempt note p.afterAttempt attempts) l) := by
    intro removed
    induction removed with
    | nil => exact hself
    | cons p removed ih =>
      intro l
      exact keeps_trans (noteAttempt_keeps note p.afterAttempt l) (ih _)
  unfold removeResearchRetry setResearchPendingRetries
  dsimp only
  split_ifs
  · exact hself _
  · exact hfold _ _

/-! ## Quiet transactions -/

theorem reserved_le {l l' : List Attempt} (h : List.Forall₂ Keeps l l') (hr : ∀ a ∈ l, 0 ≤ a.reservedBytes) :
    researchReservedBytes l' ≤ researchReservedBytes l := by
  induction h with
  | nil => exact Int.le_refl _
  | @cons a a' l l' hk _ ih =>
    have ha := (hk.reserved (hr a (List.mem_cons_self ..))).2
    have hrest := ih fun x hx => hr x (List.mem_cons_of_mem _ hx)
    simp only [researchReservedBytes, List.map_cons, List.sum_cons] at hrest ⊢
    omega

/-- The bytes retained and reserved are within the limit. -/
def WithinBytes (run : Run) : Prop :=
  run.retrievedBytes + researchReservedBytes run.attempts ≤ inputResearchRetainedByteLimit

structure Quiet (run next : Run) : Prop where
  attempts : List.Forall₂ Keeps run.attempts next.attempts
  id : next.id = run.id
  recipe : next.recipe = run.recipe
  portable : next.portable = run.portable
  continues : next.continues = run.continues
  requests : next.budgetRequests = run.budgetRequests
  records : run.portable.isSome = true → next.records = run.records
  state : next.state = run.state ∨ (run.state = .queued ∧ next.state = .running) ∨
    (run.state = .running ∧ next.state = .interrupted)
  bytes : (∀ a ∈ run.attempts, 0 ≤ a.reservedBytes) → WithinBytes run → WithinBytes next

theorem forall₂_keeps_refl (l : List Attempt) : List.Forall₂ Keeps l l := List.forall₂_same.mpr fun a _ => .refl a

/-- A transaction that moves attempts only is quiet where each attempt is kept. -/
theorem Quiet.of_attempts {run : Run} {attempts : List Attempt} (h : List.Forall₂ Keeps run.attempts attempts) :
    Quiet run { run with attempts } where
  attempts := h
  id := rfl
  recipe := rfl
  portable := rfl
  continues := rfl
  requests := rfl
  records _ := rfl
  state := .inl rfl
  bytes hr hb := by
    have hle := reserved_le h hr
    unfold WithinBytes at hb ⊢
    dsimp only
    omega

theorem Quiet.pending {run next : Run} (h : Quiet run next) (pending : List PendingRetry) :
    Quiet run (setResearchPendingRetries next pending) :=
  { h with }

theorem removeResearchRetry_quiet (run : Run) (after note : String) : Quiet run (removeResearchRetry run after note) :=
  (@Quiet.of_attempts run _ (removeResearchRetry_keeps run after note)).pending _

theorem changed_quiet {run : Run} {id : String} {change : Attempt → Except String Attempt} {attempts : List Attempt}
    (h : changeAttempt id change run.attempts = .ok attempts) (keeps : ∀ a a', change a = .ok a' → Keeps a a') :
    Quiet run { run with attempts } :=
  .of_attempts (changeAttempt_keeps h keeps)

theorem bind_ok {α β : Type} {x : Except String α} {f : α → Except String β} {b : β} (h : x >>= f = .ok b) :
    ∃ a, x = .ok a ∧ f a = .ok b := by
  cases x with
  | error e => cases h
  | ok a => exact ⟨a, rfl, h⟩

theorem finishResearchAttempt_quiet {run next : Run} {id : String} {result : List UInt8} {problem now : String}
    (h : finishResearchAttempt run id result problem now = .ok next) : Quiet run next := by
  obtain ⟨attempts, hc, hn⟩ := bind_ok h
  cases hn
  exact changed_quiet hc fun a a' => finishAttempt_keeps

theorem refuseResearchAttempt_quiet {run next : Run} {id : String} {result : List UInt8} {code problem now : String}
    (h : refuseResearchAttempt run id result code problem now = .ok next) : Quiet run next := by
  obtain ⟨attempts, hc, hn⟩ := bind_ok h
  cases hn
  exact changed_quiet hc fun a a' h => (refuseAttempt_keeps h).1

theorem researchModelAvailability_quiet {run next : Run} {id : String} {waiting : Bool}
    (h : researchModelAvailability run id waiting = .ok next) : Quiet run next := by
  obtain ⟨attempts, hc, hn⟩ := bind_ok h
  cases hn
  exact changed_quiet hc fun a a' => admitAttempt_keeps

theorem find_split {pre post : List Attempt} {a : Attempt} {id : String} (ha : a.id = id) (hpre : ∀ x ∈ pre, x.id ≠ id) :
    researchAttemptByID (pre ++ a :: post) id = .ok a := by
  have : (pre ++ a :: post).find? (fun x => x.id == id) = some a := by
    rw [List.find?_eq_some_iff_append]
    exact ⟨by simpa using ha, pre, post, rfl, fun x hx => by simpa using hpre x hx⟩
  rw [researchAttemptByID, this]

theorem reserved_split (pre post : List Attempt) (a : Attempt) :
    researchReservedBytes (pre ++ a :: post) =
      researchReservedBytes pre + a.reservedBytes + researchReservedBytes post := by
  simp only [researchReservedBytes, List.map_append, List.map_cons, List.sum_append, List.sum_cons]
  omega

/-- Where the reply swaps its reservation for what it retained. -/
theorem settled_quiet {run : Run} {pre post : List Attempt} {a a' : Attempt} {size : Int}
    (hl : run.attempts = pre ++ a :: post) (keeps : Keeps a a') (hzero : a'.reservedBytes = 0)
    (hroom : run.retrievedBytes + researchReservedBytes run.attempts - a.reservedBytes + size ≤
      inputResearchRetainedByteLimit) :
    Quiet run { run with retrievedBytes := run.retrievedBytes + size, attempts := pre ++ a' :: post } where
  attempts := by
    rw [hl]
    exact forall₂_split Keeps.refl pre post keeps
  id := rfl
  recipe := rfl
  portable := rfl
  continues := rfl
  requests := rfl
  records _ := rfl
  state := .inl rfl
  bytes _ _ := by
    unfold WithinBytes
    dsimp only
    rw [hl, reserved_split] at hroom
    rw [reserved_split, hzero]
    omega

theorem settleAttempt_keeps {kind : Kind} {reply : Reply} {now : String} {a a' : Attempt}
    (h : settleAttempt kind reply now a = .ok a') : Keeps a a' ∧ a'.reservedBytes = 0 := by
  unfold settleAttempt at h
  cases hr : refusedCode kind reply with
  | some code =>
    simp only [hr] at h
    exact refuseAttempt_keeps h
  | none =>
    simp only [hr] at h
    generalize (if a.state = .waiting then some (waitingError reply.error) else reply.error) = error at h
    cases hf : finishAttempt reply.raw ((error.map (·.text)).getD "") now a with
    | error e =>
      rw [hf] at h
      cases h
    | ok b =>
      rw [hf] at h
      cases h
      obtain ⟨hopen, state, problem, result, rfl⟩ := finishAttempt_spec hf
      obtain ⟨h1, h2, h3, h4, h5, h6, h7⟩ := noteFailure_fields error
        { a with reservedBytes := 0, finishedAt := now, problem, state, result }
      refine ⟨.of_open hopen h1 h2 h3 h4 h5 h6 fun h => ?_, h7⟩
      rw [h7]
      exact ⟨Int.le_refl _, h⟩

theorem settleResearchAttempt_quiet {run next : Run} {id : String} {kind : Kind} {reply : Reply} {now : String}
    (h : settleResearchAttempt run id kind reply now = .ok next) : Quiet run next := by
  obtain ⟨current, hcur, h⟩ := bind_ok h
  obtain ⟨size, -, h⟩ := bind_ok h
  by_cases hlimit : responseLimit < reply.raw.length ∨ inputResearchRetainedByteLimit <
      run.retrievedBytes + researchReservedBytes run.attempts - current.reservedBytes + size
  · rw [if_pos hlimit] at h
    cases h
  rw [if_neg hlimit] at h
  push Not at hlimit
  obtain ⟨attempts, hc, hn⟩ := bind_ok h
  cases hn
  obtain ⟨pre, a, a', post, hl, rfl, hch, hid, hpre⟩ := changeAttempt_split hc
  rw [hl, find_split hid hpre] at hcur
  cases hcur
  obtain ⟨hk, hz⟩ := settleAttempt_keeps hch
  exact settled_quiet hl hk hz hlimit.2

/-- A note moves nothing a quiet transaction keeps. -/
theorem Keeps.of_note {a a' : Attempt} (h : ∃ problem retryAt retryNote, a' = { a with problem, retryAt, retryNote }) :
    Keeps a a' := by
  obtain ⟨problem, retryAt, retryNote, rfl⟩ := h
  exact ⟨rfl, rfl, rfl, rfl, rfl, rfl, fun _ => rfl, fun h => ⟨h, rfl, rfl⟩, fun h => h, fun h => ⟨h, Int.le_refl _⟩⟩

theorem scheduleResearchRetry_quiet {run next : Run} {id : String} {kind : Kind} {ended : Bool} {retryAt : String}
    (h : scheduleResearchRetry run id kind ended retryAt = .ok next) : Quiet run next := by
  obtain ⟨a, -, h⟩ := bind_ok h
  cases hr : noRetryReason run kind ended a with
  | some reason =>
    simp only [hr] at h
    split at h
    · cases h
      exact .of_attempts (forall₂_keeps_refl _)
    · obtain ⟨attempts, hc, hn⟩ := bind_ok h
      cases hn
      apply changed_quiet hc
      rintro b _ ⟨⟩
      exact .of_note ⟨_, b.retryAt, _, rfl⟩
  | none =>
    simp only [hr] at h
    obtain ⟨attempts, hc, hn⟩ := bind_ok h
    cases hn
    refine (changed_quiet hc ?_).pending _
    rintro b _ ⟨⟩
    exact .of_note ⟨_, _, _, rfl⟩

theorem recover_keeps (now : String) (l : List Attempt) : List.Forall₂ Keeps l (l.map (recoverAttempt now)) := by
  rw [List.forall₂_map_right_iff]
  exact List.forall₂_same.mpr fun a _ => recoverAttempt_keeps now a

theorem recoverInputResearch_quiet (run : Run) (keptPage : Bool) (now : String) :
    Quiet run (recoverInputResearch run keptPage now) := by
  unfold recoverInputResearch
  split_ifs with hs hkept
  · exact .of_attempts (forall₂_keeps_refl _)
  all_goals
    rw [not_ne_iff] at hs
    have hk := keeps_trans (removeResearchRetry_keeps run ""
      "The process stopped before the scheduled retry. No further request was made.") (recover_keeps now _)
    refine ⟨hk, rfl, rfl, rfl, rfl, rfl, fun _ => rfl, .inr (.inr ⟨hs, rfl⟩), fun hr hb => ?_⟩
    have hle := reserved_le hk hr
    unfold WithinBytes at hb ⊢
    exact Int.le_trans (Int.add_le_add_left hle _) hb

/-! ## Beginning and retrying -/

/-- An attempt that joins the others under the limits. -/
structure Joins (run : Run) (a : Attempt) : Prop where
  running : run.state = .running
  room : (admitted run.attempts a.kind : Int) < (researchApprovedLimits run).of a.kind
  few : run.attempts.length < 250
  started : a.state = .started
  last : a.retriedBy = ""
  reserved : 0 ≤ a.reservedBytes
  bytes : WithinBytes run →
    run.retrievedBytes + (researchReservedBytes run.attempts + a.reservedBytes) ≤ inputResearchRetainedByteLimit

theorem researchRequestBudget_ok {run : Run} {kind : Kind} {u : Unit} (h : researchRequestBudget run kind = .ok u) :
    (admitted run.attempts kind : Int) < (researchApprovedLimits run).of kind ∧ run.attempts.length < 250 := by
  unfold researchRequestBudget at h
  split_ifs at h with hl
  push Not at hl
  exact hl

theorem reserveResearchSource_ok {run : Run} {a a' : Attempt} (h : reserveResearchSource run a = .ok a')
    (hz : a.reservedBytes = 0) :
    ∃ reserved, a' = { a with reservedBytes := reserved } ∧ 0 ≤ reserved ∧ (WithinBytes run →
      run.retrievedBytes + (researchReservedBytes run.attempts + reserved) ≤ inputResearchRetainedByteLimit) := by
  unfold reserveResearchSource at h
  split_ifs at h with hm hlimit
  · cases h
    refine ⟨0, by rw [← hz], Int.le_refl _, fun hb => ?_⟩
    unfold WithinBytes at hb
    omega
  · cases h
    push Not at hlimit
    refine ⟨allowance, rfl, by decide, fun _ => ?_⟩
    omega

/-- The attempt of a first request. -/
theorem beginResearchAttempt_ok {run next : Run} {kind : String} {args : List UInt8} {url query now : String}
    {attempt : Attempt} {cached : Bool}
    (h : beginResearchAttempt run kind args url query now = .ok (next, attempt, cached)) :
    (next = run ∧ attempt ∈ run.attempts ∧ attempt.state = .completed ∧ cached = true) ∨
    (next = { run with attempts := run.attempts ++ [attempt] } ∧ cached = false ∧ Joins run attempt ∧
      attempt.kind.text = kind ∧ attempt.digest = attemptKey kind args ∧
      attempt.id = "attempt_" ++ attempt.digest ∧ attempt.number = 1 ∧ attempt.retryOf = "" ∧
      ∀ a ∈ run.attempts, ¬(a.digest = attempt.digest ∧ a.kind = attempt.kind)) := by
  unfold beginResearchAttempt at h
  split_ifs at h with hs
  push Not at hs
  split at h
  · cases h
  rename_i k hk
  have htext : k.text = kind := by
    have := List.find?_some hk
    simpa using this
  simp only at h
  split at h
  · rename_i previous hprev
    split_ifs at h with hc
    cases h
    have hmem := List.mem_reverse.mp (List.mem_of_find?_eq_some hprev)
    exact .inl ⟨rfl, hmem, hc, rfl⟩
  · rename_i hnone
    obtain ⟨u, hbudget, h⟩ := bind_ok h
    obtain ⟨a, hreserve, h⟩ := bind_ok h
    cases h
    obtain ⟨hroom, hfew⟩ := researchRequestBudget_ok hbudget
    obtain ⟨reserved, rfl, hpos, hbytes⟩ := reserveResearchSource_ok hreserve rfl
    refine .inr ⟨rfl, rfl, ⟨hs.2, hroom, hfew, rfl, rfl, hpos, hbytes⟩, htext, rfl, rfl, rfl, rfl, ?_⟩
    intro a ha
    rw [List.find?_eq_none] at hnone
    have := hnone a (List.mem_reverse.mpr ha)
    simpa using this

/-- The attempt that a retry follows, once it is retried. -/
def retried (previous : Attempt) (id : String) : Attempt :=
  { previous with retriedBy := id, retryNote := "This operation was retried under the saved recipe policy." }

/-- An attempt and the one it follows. -/
structure Follows (recipe : Recipe) (previous a : Attempt) : Prop where
  kind : a.kind = previous.kind
  digest : a.digest = previous.digest
  failed : previous.state = .uncertain
  unfollowed : previous.retriedBy = ""
  allowed : researchRetryAllowed recipe previous = true
  number : a.number = researchAttemptNumber previous + 1
  id : a.id = retryID previous.digest a.number
  retryOf : a.retryOf = previous.id
  within : ∃ policy, recipe.retries = some policy ∧ a.number ≤ policy.maxRetries + 1

theorem removeResearchRetry_unnoted (run : Run) (after : String) :
    ∃ pending, removeResearchRetry run after "" = setResearchPendingRetries run pending :=
  ⟨_, rfl⟩

theorem beginResearchRetry_ok {run next : Run} {kind : String} {args : List UInt8} {after now : String}
    {attempt : Attempt} (h : beginResearchRetry run kind args after now = .ok (next, attempt)) :
    ∃ pre previous post pending, run.attempts = pre ++ previous :: post ∧
      next = setResearchPendingRetries
        { run with attempts := pre ++ retried previous attempt.id :: post ++ [attempt] } pending ∧
      Joins run attempt ∧ Follows run.recipe previous attempt := by
  unfold beginResearchRetry at h
  split_ifs at h with hs hlen
  · push Not at hs
    split at h <;> cases h
  push Not at hs
  split at h
  · cases h
  rename_i pending hpending
  obtain ⟨previous, hprev, h⟩ := bind_ok h
  simp only at h
  split at h
  · cases h
  rename_i policy hpolicy
  split_ifs at h with hauth
  push Not at hauth
  obtain ⟨hkind, hdigest, hstate, hby, hallowed, hnumber, hmax⟩ := hauth
  obtain ⟨u, hbudget, h⟩ := bind_ok h
  obtain ⟨a, hreserve, h⟩ := bind_ok h
  obtain ⟨attempts, hchange, h⟩ := bind_ok h
  cases h
  obtain ⟨hroom, hfew⟩ := researchRequestBudget_ok hbudget
  obtain ⟨reserved, ha, hpos, hbytes⟩ := reserveResearchSource_ok hreserve rfl
  obtain ⟨pre, b, b', post, hl, rfl, hb, hid, hpre⟩ := changeAttempt_split hchange
  rw [hl, find_split hid hpre] at hprev
  obtain rfl := Except.ok.inj hprev
  have hb' : b' = retried b attempt.id := (Except.ok.inj hb).symm
  subst hb'
  obtain ⟨pending', hremove⟩ := removeResearchRetry_unnoted
    { run with attempts := pre ++ retried b attempt.id :: post ++ [attempt] } after
  have hkind' : attempt.kind = b.kind := by rw [ha]
  have hdigest' : attempt.digest = attemptKey kind args := by rw [ha]
  have hnumber' : attempt.number = pending.number := by rw [ha]
  have hid' : attempt.id = retryID (attemptKey kind args) pending.number := by rw [ha]
  have hretryOf : attempt.retryOf = b.id := by rw [ha]
  have hreserved : attempt.reservedBytes = reserved := by rw [ha]
  refine ⟨pre, b, post, pending', hl, hremove,
    ⟨hs.2, by rwa [hkind'], hfew, by rw [ha], by rw [ha], by rwa [hreserved], by rwa [hreserved]⟩, ?_⟩
  exact {
    kind := hkind'
    digest := hdigest'.trans hdigest.symm
    failed := hstate
    unfollowed := hby
    allowed := by simpa using hallowed
    number := hnumber'.trans hnumber
    id := by rw [hid', hnumber', hdigest]
    retryOf := hretryOf
    within := ⟨policy, hpolicy, by rwa [hnumber']⟩ }

/-! ## The transactions -/

/-- A decision settles the pending request and moves nothing else that is counted. -/
theorem decideResearchBudget_ok {run next : Run} {id decision actor : String} {responses sources : Nat} {now : String}
    (h : decideResearchBudget run id decision actor responses sources now = .ok next) :
    next.attempts = run.attempts ∧ next.recipe = run.recipe ∧ next.portable = run.portable ∧
      next.continues = run.continues ∧ next.id = run.id ∧ next.records = run.records ∧
      next.retrievedBytes = run.retrievedBytes ∧ run.state = .paused ∧
      ∃ request state, pendingResearchBudget run = some request ∧ (state = .approved ∨ state = .declined) ∧
        (next.state = .queued ∨ next.state = .partlyDone ∨ next.state = .completedWithGaps) ∧
        next.budgetRequests = run.budgetRequests.dropLast ++
          [{ request with resolvedAt := some now, reviewer := some actor, state }] := by
  unfold decideResearchBudget at h
  split at h
  · cases h
  rename_i request hp
  split at h
  · cases h
  rename_i hs
  push Not at hs
  split at h
  · cases h
  simp only at h
  split at h
  · cases h
    refine ⟨rfl, rfl, rfl, rfl, rfl, rfl, rfl, hs.1, request, .declined, hp, .inr rfl, ?_, rfl⟩
    dsimp only
    split
    · exact .inr (.inl rfl)
    · exact .inr (.inr rfl)
  · cases h
    exact ⟨rfl, rfl, rfl, rfl, rfl, rfl, rfl, hs.1, request, .approved, hp, .inl rfl, .inl rfl, rfl⟩

/-- All that a transaction that succeeds can do. -/
inductive Move (run : Run) : Call → Run → Prop
  | quiet (c next) (h : Quiet run next) : Move run c next
  | began (kind args url query now) (attempt : Attempt) (joins : Joins run attempt) (text : attempt.kind.text = kind)
      (digest : attempt.digest = attemptKey kind args) (id : attempt.id = "attempt_" ++ attempt.digest)
      (number : attempt.number = 1) (retryOf : attempt.retryOf = "")
      (first : ∀ a ∈ run.attempts, ¬(a.digest = attempt.digest ∧ a.kind = attempt.kind)) :
      Move run (.begin kind args url query now) { run with attempts := run.attempts ++ [attempt] }
  | retry (c pre previous post pending) (attempt : Attempt) (split : run.attempts = pre ++ previous :: post)
      (joins : Joins run attempt) (follows : Follows run.recipe previous attempt) :
      Move run c (setResearchPendingRetries
        { run with attempts := pre ++ retried previous attempt.id :: post ++ [attempt] } pending)
  | paused (request : BudgetRequest) (now) (h : researchBudgetProposal run now = some request) :
      Move run (.pause now) (pauseResearchForBudget run now)
  | decided (id decision actor responses sources now next)
      (h : decideResearchBudget run id decision actor responses sources now = .ok next) :
      Move run (.decide id decision actor responses sources now) next

theorem Quiet.refl (run : Run) : Quiet run run := .of_attempts (forall₂_keeps_refl _)

theorem transact_move {run next : Run} {c : Call} (h : transact run c = .ok next) : Move run c next := by
  cases c with
  | start =>
    simp only [transact, startResearch] at h
    split_ifs at h with hs
    cases h
    push Not at hs
    exact .quiet _ _ ⟨forall₂_keeps_refl _, rfl, rfl, rfl, rfl, rfl, fun _ => rfl, .inr (.inl ⟨hs.1, rfl⟩), fun _ hb => hb⟩
  | begin kind args url query now =>
    simp only [transact] at h
    cases hb : beginResearchAttempt run kind args url query now with
    | error e =>
      rw [hb] at h
      cases h
    | ok r =>
      obtain ⟨next', attempt, cached⟩ := r
      rw [hb] at h
      cases h
      obtain ⟨rfl, -⟩ | ⟨rfl, -, joins, text, digest, id, number, retryOf, first⟩ := beginResearchAttempt_ok hb
      · exact .quiet _ _ (.refl _)
      · exact .began kind args url query now attempt joins text digest id number retryOf first
  | retry kind args after now =>
    simp only [transact] at h
    cases hb : beginResearchRetry run kind args after now with
    | error e =>
      rw [hb] at h
      cases h
    | ok r =>
      obtain ⟨next', attempt⟩ := r
      rw [hb] at h
      cases h
      obtain ⟨pre, previous, post, pending, split, rfl, joins, follows⟩ := beginResearchRetry_ok hb
      exact .retry _ pre previous post pending attempt split joins follows
  | finish id result problem now => exact .quiet _ _ (finishResearchAttempt_quiet h)
  | refuse id result code problem now => exact .quiet _ _ (refuseResearchAttempt_quiet h)
  | availability id waiting => exact .quiet _ _ (researchModelAvailability_quiet h)
  | settle id kind reply now => exact .quiet _ _ (settleResearchAttempt_quiet h)
  | schedule id kind ended retryAt => exact .quiet _ _ (scheduleResearchRetry_quiet h)
  | unschedule after note =>
    cases h
    exact .quiet _ _ (removeResearchRetry_quiet run after note)
  | recover keptPage now =>
    cases h
    exact .quiet _ _ (recoverInputResearch_quiet run keptPage now)
  | work step records phase phaseReason problem =>
    cases h
    exact .quiet _ _ ⟨forall₂_keeps_refl _, rfl, rfl, rfl, rfl, rfl, fun hp => by simp [workResearch, hp], .inl rfl,
      fun _ hb => hb⟩
  | pause now =>
    cases h
    cases hp : researchBudgetProposal run now with
    | none =>
      simp only [pauseResearchForBudget, hp]
      exact .quiet _ _ (.refl _)
    | some request => exact .paused request now hp
  | decide id decision actor responses sources now => exact .decided id decision actor responses sources now next h

theorem perform_move (run : Run) (c : Call) : Move run c (perform run c) := by
  unfold perform
  cases h : transact run c with
  | error e => exact .quiet _ _ (.refl _)
  | ok next => exact transact_move h

end Desk.Research
