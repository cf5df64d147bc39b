import Desk.Research.BudgetSound

/-!
# Runs within what was approved

Every transaction keeps a run within its approved limits and its requests
valid; the limits only grow, and a declined request is the last.
-/

namespace Desk.Research

/-! ## Quiet transactions -/

/-- What every run keeps. -/
structure Sound (run : Run) : Prop where
  within : Within run
  budgets : Budgets run

theorem Quiet.same {run next : Run} (q : Quiet run next) : SameContract run next := ⟨q.recipe, q.portable, q.continues⟩

theorem Quiet.approved {run next : Run} (q : Quiet run next) :
    researchApprovedLimits next = researchApprovedLimits run := by
  rw [approved_eq, approved_eq, q.same.base, q.requests]

theorem kept_of {l l' : List Attempt} (h : List.Forall₂ Keeps l l') {a' : Attempt} (ha : a' ∈ l') :
    ∃ a ∈ l, Keeps a a' := by
  induction h with
  | nil => cases ha
  | @cons b b' l l' hk _ ih =>
    obtain rfl | ha := List.mem_cons.mp ha
    · exact ⟨b, List.mem_cons_self .., hk⟩
    · obtain ⟨a, hm, hk'⟩ := ih ha
      exact ⟨a, List.mem_cons_of_mem _ hm, hk'⟩

theorem Within.quiet {run next : Run} (w : Within run) (q : Quiet run next) : Within next where
  counts kind := by
    rw [q.approved]
    have hle := admitted_keeps q.attempts kind
    have := w.counts kind
    omega
  few := q.attempts.length_eq ▸ w.few
  reserved a ha := by
    obtain ⟨b, hb, k⟩ := kept_of q.attempts ha
    exact (k.reserved (w.reserved b hb)).1
  bytes := q.bytes w.reserved w.bytes

theorem Sound.quiet {run next : Run} (s : Sound run) (q : Quiet run next) : Sound next where
  within := s.within.quiet q
  budgets := by
    refine s.budgets.same q.same q.requests q.records ?_
    obtain hs | ⟨hs, hn⟩ | ⟨hs, hn⟩ := q.state
    · rw [hs]
    · rw [hs, hn]
      simp
    · rw [hs, hn]
      simp

/-! ## Attempts that join -/

theorem Sound.began {run : Run} (s : Sound run) {attempt : Attempt} (joins : Joins run attempt) :
    Sound { run with attempts := run.attempts ++ [attempt] } where
  within := s.within.join joins (fun _ => rfl) rfl s.within.reserved rfl rfl rfl rfl
  budgets := s.budgets.same ⟨rfl, rfl, rfl⟩ rfl (fun _ => rfl) Iff.rfl

theorem Sound.retry {run : Run} (s : Sound run) {pre post : List Attempt} {previous attempt : Attempt}
    (split : run.attempts = pre ++ previous :: post) (joins : Joins run attempt) (pending : List PendingRetry) :
    Sound (setResearchPendingRetries
      { run with attempts := pre ++ retried previous attempt.id :: post ++ [attempt] } pending) where
  within := by
    have hreserved : ∀ b ∈ pre ++ retried previous attempt.id :: post, 0 ≤ b.reservedBytes := by
      intro b hb
      have hall := s.within.reserved
      rw [split] at hall
      simp only [List.mem_append, List.mem_cons] at hb
      obtain hb | rfl | hb := hb
      · exact hall b (by simp [hb])
      · exact hall previous (by simp)
      · exact hall b (by simp [hb])
    refine s.within.join (m := pre ++ retried previous attempt.id :: post) joins ?_ ?_ hreserved ?_ rfl rfl rfl
    · intro kind
      rw [split, admitted_retried]
    · rw [split, List.length_append, List.length_append, List.length_cons, List.length_cons]
    · rw [split, reserved_split, reserved_split]
      rfl
  budgets := s.budgets.same ⟨rfl, rfl, rfl⟩ rfl (fun _ => rfl) Iff.rfl

/-! ## Pauses and decisions -/

theorem pending_split {run : Run} {request : BudgetRequest} (b : Budgets run)
    (h : pendingResearchBudget run = some request) :
    ∃ init, run.budgetRequests = init ++ [request] ∧ Approvals run init ∧
      requestValid run [] (approvedFrom (researchBaseLimits run) init) request = true ∧ request.state = .pending ∧
      run.state = .paused := by
  cases b.requests with
  | approved approvals moved =>
    rw [pendingResearchBudget_approved approvals.approved] at h
    cases h
  | last init r split approvals valid end_ =>
    rw [pendingResearchBudget_concat split, Option.ite_none_right_eq_some] at h
    obtain ⟨hs, hr⟩ := h
    obtain rfl := Option.some.inj hr
    cases end_ with
    | pending state paused => exact ⟨init, split, approvals, valid, hs, paused⟩
    | declined state => rw [hs] at state; cases state

/-- An offer that is made is a strict increase of the limits, on a run with none pending. -/
theorem researchBudgetProposal_new {run : Run} {now : String} {request : BudgetRequest} (s : Sound run)
    (hp : pendingResearchBudget run = none) (h : researchBudgetProposal run now = some request) :
    Increase run (researchApprovedLimits run) request.proposed ∧ run.continues = false ∧
      (researchBudgetUsage run).records ≤ (researchApprovedLimits run).records ∧ run.budgetRequests.length < 16 ∧
      (∀ r ∈ run.budgetRequests, r.state ≠ .declined) ∧
      request = { request with
        id := "budget_" ++ digestOf (offerBytes run request.current request.proposed request.used), state := .pending,
        resolvedAt := none, reviewer := none, current := researchApprovedLimits run, used := researchBudgetUsage run } := by
  obtain ⟨hv, hgrows⟩ := s.budgets.limits
  unfold researchBudgetProposal at h
  rw [hp] at h
  obtain ⟨proposed, hproposed, hrequest⟩ := Option.map_eq_some_iff.mp h
  cases hport : run.portable with
  | none =>
    simp only [hport] at hproposed
    have hrecords : (researchApprovedLimits run).records = run.recipe.limits.records := by
      rw [hgrows.1, researchBaseLimits, hport]
    obtain ⟨hinc, hrec, hcont, hfew, hnone⟩ := recipeProposed_increase hproposed hport hv hrecords
    rw [← hrequest]
    refine ⟨hinc, hcont, ?_, hfew, hnone, rfl⟩
    simp only [researchBudgetUsage, hport, Option.any_none, Bool.false_eq_true, if_false]
    omega
  | some portable =>
    simp only [hport] at hproposed
    obtain ⟨hinc, hresponse, hfew, hnone⟩ := portableProposed_increase hproposed hport hv
    obtain ⟨hcont, hrec⟩ := s.budgets.portable (by rw [hport]; rfl)
    rw [← hrequest]
    refine ⟨hinc, hcont, ?_, hfew, hnone, rfl⟩
    obtain ⟨-, -, -, -, -, -, hone⟩ := validLimits hv
    simp only [researchBudgetUsage, hport, Option.any_some, hresponse, hrec]
    simpa using Int.le_trans (by decide) hone

/-- A new offer passes the check of requests, wherever its run has come to. -/
theorem offer_valid {run next : Run} {request : BudgetRequest} {now : String} (s : Sound run)
    (hp : pendingResearchBudget run = none) (h : researchBudgetProposal run now = some request)
    (same : SameContract run next) : requestValid next [] (researchApprovedLimits run) request = true := by
  obtain ⟨hinc, hcont, hrec, -, -, heq⟩ := researchBudgetProposal_new s hp h
  obtain ⟨hgr, hgs, hgp, hgm⟩ := hinc.grows
  have hmodel := usage_le_admitted run.attempts .model
  have hsearch := usage_le_admitted run.attempts .search
  have hpage := usage_le_admitted run.attempts .page
  have hmodel' := s.within.counts .model
  have hsearch' := s.within.counts .search
  have hpage' := s.within.counts .page
  have hnn : 0 ≤ (researchBudgetUsage run).records := by
    simp only [researchBudgetUsage]
    split <;> omega
  simp only [Limits.of] at hmodel' hsearch' hpage'
  have hstart := hasPrefix_append "budget_" (digestOf (offerBytes run request.current request.proposed request.used))
  have hlen : len ("budget_" ++ digestOf (offerBytes run request.current request.proposed request.used)) = 71 := by
    rw [len_append, len_of_hexForm (digestOf_form _)]
    decide
  rw [same.request, heq]
  simp only [requestValid, Bool.and_eq_true, decide_eq_true_eq]
  refine ⟨⟨⟨⟨⟨⟨⟨⟨hstart, hlen⟩, rfl⟩, trivial⟩, ?_⟩, ?_⟩, hgr, hgs, hgp, hgm, hinc.more⟩, hinc.valid⟩,
    by rw [hcont]; rfl⟩
  · simp only [researchBudgetUsage] at hnn ⊢
    omega
  · simp only [researchBudgetUsage] at hrec ⊢
    omega

/-- Nothing counts for more where the requests and the pause alone move. -/
theorem Within.of_limits {run next : Run} (w : Within run) (ha : next.attempts = run.attempts)
    (hr : next.retrievedBytes = run.retrievedBytes) (hl : Grows (researchApprovedLimits run) (researchApprovedLimits next)) :
    Within next where
  counts kind := by
    rw [ha]
    exact Int.le_trans (w.counts kind) (hl.of kind)
  few := ha ▸ w.few
  reserved := ha ▸ w.reserved
  bytes := by
    rw [WithinBytes, ha, hr]
    exact w.bytes

theorem pause_same (run : Run) (now : String) : SameContract run (pauseResearchForBudget run now) := by
  unfold pauseResearchForBudget
  split <;> exact ⟨rfl, rfl, rfl⟩

/-- What a pause leaves: the pending request again, or a new one after approved ones. -/
theorem pause_requests {run : Run} {now : String} {request : BudgetRequest} (s : Sound run)
    (h : researchBudgetProposal run now = some request) :
    ((pauseResearchForBudget run now).budgetRequests = run.budgetRequests ∧ run.state = .paused) ∨
    (pendingResearchBudget run = none ∧ Approvals run run.budgetRequests ∧
      (pauseResearchForBudget run now).budgetRequests = run.budgetRequests ++ [request]) := by
  cases hp : pendingResearchBudget run with
  | some held =>
    obtain ⟨-, -, -, -, -, hpaused⟩ := pending_split s.budgets hp
    refine .inl ⟨?_, hpaused⟩
    simp [pauseResearchForBudget, h, hp]
  | none =>
    obtain ⟨-, -, -, -, hnone, -⟩ := researchBudgetProposal_new s hp h
    refine .inr ⟨rfl, ?_, by simp [pauseResearchForBudget, h, hp]⟩
    cases s.budgets.requests with
    | approved approvals moved => exact approvals
    | last init r split approvals valid end_ =>
      cases end_ with
      | pending state =>
        rw [pendingResearchBudget_concat split, if_pos state] at hp
        cases hp
      | declined state => exact absurd state (hnone r (by simp [split]))

theorem paused_state {run : Run} {now : String} {request : BudgetRequest}
    (h : researchBudgetProposal run now = some request) : (pauseResearchForBudget run now).state = .paused := by
  simp only [pauseResearchForBudget, h]

theorem pause_kept (run : Run) (now : String) :
    (pauseResearchForBudget run now).attempts = run.attempts ∧
      (pauseResearchForBudget run now).retrievedBytes = run.retrievedBytes ∧
      (pauseResearchForBudget run now).records = run.records ∧ (pauseResearchForBudget run now).id = run.id := by
  unfold pauseResearchForBudget
  split <;> exact ⟨rfl, rfl, rfl, rfl⟩

theorem offer_pending {run : Run} {now : String} {request : BudgetRequest} (s : Sound run)
    (hp : pendingResearchBudget run = none) (h : researchBudgetProposal run now = some request) :
    request.state = .pending ∧ request.resolvedAt = none ∧ request.reviewer = none := by
  obtain ⟨-, -, -, -, -, heq⟩ := researchBudgetProposal_new s hp h
  rw [heq]
  exact ⟨rfl, rfl, rfl⟩

theorem pause_approved {run : Run} {now : String} {request : BudgetRequest} (s : Sound run)
    (h : researchBudgetProposal run now = some request) :
    researchApprovedLimits (pauseResearchForBudget run now) = researchApprovedLimits run := by
  rw [approved_eq, approved_eq, (pause_same run now).base]
  obtain ⟨hreq, -⟩ | ⟨hp, -, hreq⟩ := pause_requests s h
  · rw [hreq]
  · rw [hreq, approvedFrom_concat, if_neg]
    rw [(offer_pending s hp h).1]
    decide

theorem Sound.paused {run : Run} {now : String} {request : BudgetRequest} (s : Sound run)
    (h : researchBudgetProposal run now = some request) : Sound (pauseResearchForBudget run now) where
  within := by
    obtain ⟨ha, hr, -, -⟩ := pause_kept run now
    refine s.within.of_limits ha hr ?_
    rw [pause_approved s h]
    exact .refl _
  budgets := by
    have hsame := pause_same run now
    have hstate := paused_state h
    obtain ⟨-, -, hrec, -⟩ := pause_kept run now
    obtain ⟨hreq, hpaused⟩ | ⟨hp, approvals, hreq⟩ := pause_requests s h
    · exact s.budgets.same hsame hreq (fun _ => hrec) (by simp [hstate, hpaused])
    · obtain ⟨hpend, hres, hrev⟩ := offer_pending s hp h
      refine ⟨?_, ?_, ?_, .last run.budgetRequests request hreq (approvals.same hsame) ?_ (.pending hpend hstate hres hrev)⟩
      · rw [hsame.valid, hsame.base]
        exact s.budgets.base
      · rw [hsame.portable, hsame.continues, hrec]
        exact s.budgets.portable
      · obtain ⟨-, -, -, hfew, -⟩ := researchBudgetProposal_new s hp h
        rw [hreq, List.length_append, List.length_singleton]
        omega
      · rw [hsame.base]
        exact offer_valid s hp h hsame

/-- A decision ends the pending request, approved or declined. -/
theorem decided_requests {run next : Run} {id decision actor : String} {responses sources : Nat} {now : String}
    (b : Budgets run) (h : decideResearchBudget run id decision actor responses sources now = .ok next) :
    ∃ init request r, run.budgetRequests = init ++ [request] ∧ next.budgetRequests = init ++ [r] ∧ Approvals run init ∧
      request.state = .pending ∧ requestValid run [] (approvedFrom (researchBaseLimits run) init) r = true ∧
      r.id = request.id ∧ r.current = request.current ∧
      (r.state = .approved ∨ r.state = .declined) ∧ r.resolvedAt.isSome = true ∧ r.reviewer.isSome = true ∧
      next.state ≠ .paused := by
  obtain ⟨-, -, -, -, -, -, -, -, request, state, hp, hstate, hnext, hreq⟩ := decideResearchBudget_ok h
  obtain ⟨init, hsplit, approvals, valid, hpending, -⟩ := pending_split b hp
  rw [hsplit, List.dropLast_concat] at hreq
  refine ⟨init, request, _, hsplit, hreq, approvals, hpending, valid, rfl, rfl, hstate, rfl, rfl, ?_⟩
  obtain hn | hn | hn := hnext <;> simp [hn]

theorem decide_same {run next : Run} {id decision actor : String} {responses sources : Nat} {now : String}
    (h : decideResearchBudget run id decision actor responses sources now = .ok next) : SameContract run next := by
  obtain ⟨-, hrecipe, hportable, hcontinues, -⟩ := decideResearchBudget_ok h
  exact ⟨hrecipe, hportable, hcontinues⟩

theorem decided_grows {run next : Run} {id decision actor : String} {responses sources : Nat} {now : String}
    (b : Budgets run) (h : decideResearchBudget run id decision actor responses sources now = .ok next) :
    Grows (researchApprovedLimits run) (researchApprovedLimits next) := by
  obtain ⟨init, request, r, hsplit, hreq, -, hpending, valid, -, -, hstate, -⟩ := decided_requests b h
  obtain ⟨-, hgrows, -⟩ := requestValid_grows valid
  have hpend : request.state ≠ .approved := by
    rw [hpending]
    decide
  rw [approved_eq, approved_eq, (decide_same h).base, hsplit, hreq, approvedFrom_concat, approvedFrom_concat, if_neg hpend]
  split_ifs
  · exact hgrows
  · exact .refl _

theorem Sound.decided {run next : Run} {id decision actor : String} {responses sources : Nat} {now : String}
    (s : Sound run) (h : decideResearchBudget run id decision actor responses sources now = .ok next) : Sound next where
  within := by
    obtain ⟨ha, -, -, -, -, -, hr, -⟩ := decideResearchBudget_ok h
    exact s.within.of_limits ha hr (decided_grows s.budgets h)
  budgets := by
    have hsame := decide_same h
    obtain ⟨-, -, -, -, -, hrec, -⟩ := decideResearchBudget_ok h
    obtain ⟨init, request, r, hsplit, hreq, approvals, -, valid, -, -, hstate, hres, hrev, hmoved⟩ :=
      decided_requests s.budgets h
    refine ⟨?_, ?_, ?_, ?_⟩
    · rw [hsame.valid, hsame.base]
      exact s.budgets.base
    · rw [hsame.portable, hsame.continues, hrec]
      exact s.budgets.portable
    · have hfew := s.budgets.few
      rw [hsplit, List.length_append] at hfew
      rw [hreq, List.length_append]
      exact hfew
    · obtain hs | hs := hstate
      · refine .approved ?_ hmoved
        rw [hreq]
        exact (Approvals.concat approvals hs hres hrev valid).same hsame
      · refine .last init r hreq (approvals.same hsame) ?_ (.declined hs hmoved hres hrev)
        rw [hsame.request, hsame.base]
        exact valid

/-! ## Steps -/

theorem Sound.move {run next : Run} {c : Call} (s : Sound run) (m : Move run c next) : Sound next := by
  cases m with
  | quiet _ _ q => exact s.quiet q
  | began _ _ _ _ _ attempt joins => exact s.began joins
  | retry _ pre previous post pending attempt split joins => exact s.retry split joins pending
  | paused request now h => exact s.paused h
  | decided id decision actor responses sources now next h => exact s.decided h

theorem grows_move {run next : Run} {c : Call} (s : Sound run) (m : Move run c next) :
    Grows (researchApprovedLimits run) (researchApprovedLimits next) := by
  cases m with
  | quiet _ _ q =>
    rw [q.approved]
    exact .refl _
  | began => exact .refl _
  | retry => exact .refl _
  | paused request now h =>
    rw [pause_approved s h]
    exact .refl _
  | decided id decision actor responses sources now next h => exact decided_grows s.budgets h

theorem same_move {run next : Run} {c : Call} (m : Move run c next) : SameContract run next ∧ next.id = run.id := by
  cases m with
  | quiet _ _ q => exact ⟨q.same, q.id⟩
  | began => exact ⟨⟨rfl, rfl, rfl⟩, rfl⟩
  | retry => exact ⟨⟨rfl, rfl, rfl⟩, rfl⟩
  | paused request now h => exact ⟨pause_same run now, (pause_kept run now).2.2.2⟩
  | decided id decision actor responses sources now next h =>
    obtain ⟨-, -, -, -, hid, -⟩ := decideResearchBudget_ok h
    exact ⟨decide_same h, hid⟩

/-- A request of the run was declined. -/
def Declined (run : Run) : Prop := ∃ r ∈ run.budgetRequests, r.state = .declined

theorem Declined.no_pending {run : Run} (d : Declined run) (b : Budgets run) : pendingResearchBudget run = none := by
  obtain ⟨r, hr, hs⟩ := d
  cases hp : pendingResearchBudget run with
  | none => rfl
  | some request =>
    obtain ⟨init, hsplit, approvals, -, hpending, -⟩ := pending_split b hp
    rw [hsplit] at hr
    obtain hr | hr := List.mem_append.mp hr
    · rw [approvals.approved r hr] at hs
      cases hs
    · rw [List.mem_singleton.mp hr, hpending] at hs
      cases hs

theorem Declined.no_offer {run : Run} (d : Declined run) (s : Sound run) (now : String) :
    researchBudgetProposal run now = none := by
  cases h : researchBudgetProposal run now with
  | none => rfl
  | some request =>
    obtain ⟨-, -, -, -, hnone, -⟩ := researchBudgetProposal_new s (d.no_pending s.budgets) h
    obtain ⟨r, hr, hs⟩ := d
    exact absurd hs (hnone r hr)

theorem Declined.move {run next : Run} {c : Call} (d : Declined run) (s : Sound run) (m : Move run c next) :
    next.budgetRequests = run.budgetRequests := by
  cases m with
  | quiet _ _ q => exact q.requests
  | began => rfl
  | retry => rfl
  | paused request now h =>
    rw [d.no_offer s now] at h
    cases h
  | decided id decision actor responses sources now next h =>
    obtain ⟨-, -, -, -, -, -, -, -, request, -, hp, -⟩ := decideResearchBudget_ok h
    rw [d.no_pending s.budgets] at hp
    cases hp

/-! ## Runs -/

/-- A run as it is first saved: a valid contract, and no attempt or request. -/
structure FreshBudget (journal : Run) : Prop where
  fresh : Fresh journal
  valid : validateResearchProposedLimits journal (researchBaseLimits journal) = true
  moved : journal.state ≠ .paused
  portable : journal.portable.isSome = true → journal.continues = false ∧ journal.records = 0
  bytes : journal.retrievedBytes ≤ inputResearchRetainedByteLimit

theorem FreshBudget.sound {journal : Run} (f : FreshBudget journal) : Sound journal where
  within := by
    obtain ⟨ha, hr⟩ := f.fresh
    have hlimits := validLimits f.valid
    have hbase : researchApprovedLimits journal = researchBaseLimits journal := by
      rw [approved_eq, hr]
      rfl
    refine ⟨?_, ?_, ?_, ?_⟩
    · intro kind
      rw [ha, hbase]
      cases kind <;> (simp only [admitted, List.filter_nil, List.length_nil, Limits.of]; omega)
    · rw [ha]
      exact Nat.zero_le _
    · rw [ha]
      exact fun a h => absurd h List.not_mem_nil
    · rw [WithinBytes, ha]
      simpa [researchReservedBytes] using f.bytes
  budgets := by
    refine ⟨f.valid, f.portable, ?_, .approved ?_ f.moved⟩
    · rw [f.fresh.requests]
      exact Nat.zero_le _
    · rw [f.fresh.requests]
      exact .nil

theorem FreshBudget.run {journal : Run} (f : FreshBudget journal) (calls : List Call) :
    Sound (Desk.run perform journal calls) :=
  run_invariant (fun s c h => Sound.move h (perform_move s c)) f.sound calls

theorem grows_run {journal : Run} (s : Sound journal) (calls : List Call) :
    Grows (researchApprovedLimits journal) (researchApprovedLimits (run perform journal calls)) :=
  run_related (P := Sound) (R := fun s t => Grows (researchApprovedLimits s) (researchApprovedLimits t))
    (fun s c h => h.move (perform_move s c)) (fun s c h => grows_move h (perform_move s c)) (fun _ => .refl _)
    (fun _ _ _ => Grows.trans) s calls

theorem same_run (journal : Run) (calls : List Call) :
    SameContract journal (run perform journal calls) ∧ (run perform journal calls).id = journal.id :=
  run_related (P := fun _ => True) (R := fun s t => SameContract s t ∧ t.id = s.id) (fun _ _ _ => trivial)
    (fun s c _ => same_move (perform_move s c)) (fun _ => ⟨⟨rfl, rfl, rfl⟩, rfl⟩)
    (fun _ _ _ h h' => ⟨⟨h'.1.recipe.trans h.1.recipe, h'.1.portable.trans h.1.portable,
      h'.1.continues.trans h.1.continues⟩, h'.2.trans h.2⟩) trivial calls

theorem Declined.run {journal : Run} (d : Declined journal) (s : Sound journal) (calls : List Call) :
    (Desk.run perform journal calls).budgetRequests = journal.budgetRequests ∧
      ∀ now, researchBudgetProposal (Desk.run perform journal calls) now = none := by
  induction calls generalizing journal with
  | nil => exact ⟨rfl, d.no_offer s⟩
  | cons c rest ih =>
    have m := perform_move journal c
    have hreq := d.move s m
    have d' : Declined (perform journal c) := by
      obtain ⟨r, hr, hs⟩ := d
      exact ⟨r, hreq ▸ hr, hs⟩
    obtain ⟨hrest, hnone⟩ := ih d' (s.move m)
    exact ⟨hrest.trans hreq, hnone⟩

/-! ## The ids of requests -/

/-- Two offers made in the run share a digest only where they share what is digested. -/
def OffersApart (journal : Run) (calls : List Call) : Prop :=
  ∀ earlier earlier', earlier <+: calls → earlier' <+: calls → ∀ now now' r r',
    researchBudgetProposal (run perform journal earlier) now = some r →
    researchBudgetProposal (run perform journal earlier') now' = some r' →
    digestOf (offerBytes (run perform journal earlier) r.current r.proposed r.used) =
      digestOf (offerBytes (run perform journal earlier') r'.current r'.proposed r'.used) →
    offerBytes (run perform journal earlier) r.current r.proposed r.used =
      offerBytes (run perform journal earlier') r'.current r'.proposed r'.used

/-- Every request began as an offer on the run as it then was. -/
def Offered (journal : Run) (calls : List Call) (requests : List BudgetRequest) : Prop :=
  ∀ r ∈ requests, ∃ earlier now offer, earlier <+: calls ∧
    pendingResearchBudget (run perform journal earlier) = none ∧
    researchBudgetProposal (run perform journal earlier) now = some offer ∧ r.id = offer.id ∧ r.current = offer.current

theorem Offered.mono {journal : Run} {calls : List Call} {requests : List BudgetRequest}
    (o : Offered journal calls requests) (c : Call) : Offered journal (calls ++ [c]) requests := by
  intro r hr
  obtain ⟨earlier, now, offer, hpre, rest⟩ := o r hr
  exact ⟨earlier, now, offer, hpre.trans (List.prefix_append ..), rest⟩

theorem Offered.move {journal next : Run} {calls : List Call} {c : Call} (s : Sound (run perform journal calls))
    (o : Offered journal calls (run perform journal calls).budgetRequests)
    (m : Move (run perform journal calls) c next) : Offered journal (calls ++ [c]) next.budgetRequests := by
  cases m with
  | quiet _ _ q =>
    rw [q.requests]
    exact o.mono c
  | began kind args url query now => exact o.mono _
  | retry _ => exact o.mono c
  | paused request now h =>
    obtain ⟨hreq, -⟩ | ⟨hp, -, hreq⟩ := pause_requests s h
    · rw [hreq]
      exact o.mono _
    · rw [hreq]
      intro r hr
      obtain hr | hr := List.mem_append.mp hr
      · exact o.mono _ r hr
      · obtain rfl := List.mem_singleton.mp hr
        exact ⟨calls, now, r, List.prefix_append .., hp, h, rfl, rfl⟩
  | decided id decision actor responses sources now next h =>
    obtain ⟨init, request, r, hsplit, hreq, -, -, -, hid, hcur, -⟩ := decided_requests s.budgets h
    have o' := o.mono (.decide id decision actor responses sources now)
    rw [hsplit] at o'
    rw [hreq]
    intro x hx
    obtain hx | hx := List.mem_append.mp hx
    · exact o' x (List.mem_append_left _ hx)
    · rw [List.mem_singleton.mp hx, hid, hcur]
      exact o' request (by simp)

theorem FreshBudget.offered {journal : Run} (f : FreshBudget journal) (calls : List Call) :
    Offered journal calls (Desk.run perform journal calls).budgetRequests := by
  induction calls using List.reverseRecOn with
  | nil =>
    intro r hr
    rw [run_nil, f.fresh.requests] at hr
    cases hr
  | append_singleton calls c ih =>
    rw [run_snoc]
    exact ih.move (f.run calls) (perform_move _ c)

/-- Requests with one id were made under the same limits. -/
theorem ids_apart {journal : Run} (f : FreshBudget journal) {calls : List Call} (apart : OffersApart journal calls) :
    ((run perform journal calls).budgetRequests.map (·.id)).Nodup := by
  have hcurrents := (f.run calls).budgets.currents
  rw [List.Nodup, List.pairwise_map] at hcurrents ⊢
  refine hcurrents.imp_of_mem ?_
  intro a b ha hb hne hid
  obtain ⟨earlier, now, offer, hpre, hp, ho, hia, hca⟩ := f.offered calls a ha
  obtain ⟨earlier', now', offer', hpre', hp', ho', hib, hcb⟩ := f.offered calls b hb
  obtain ⟨-, -, -, -, -, heq⟩ := researchBudgetProposal_new (f.run earlier) hp ho
  obtain ⟨-, -, -, -, -, heq'⟩ := researchBudgetProposal_new (f.run earlier') hp' ho'
  have hoid : offer.id = offer'.id := hia.symm.trans (hid.trans hib)
  rw [congrArg BudgetRequest.id heq, congrArg BudgetRequest.id heq'] at hoid
  have hbytes := apart earlier earlier' hpre hpre' now now' offer offer' ho ho' ((String.append_right_inj _).mp hoid)
  obtain ⟨hs, hi⟩ := same_run journal earlier
  obtain ⟨hs', hi'⟩ := same_run journal earlier'
  have hcur := offerBytes_current (hi'.trans hi.symm) (hs'.portable.trans hs.portable.symm) hbytes
  exact hne (hca.trans (hcur.trans hcb.symm))

/-- In every run from a fresh journal the requests of a kind stay within its approved limit and
all of them within 250, and the bytes retained and reserved within theirs; the limits only grow,
within the caps and for the same records; no offer follows a declined request; and the requests
are valid where the digests of the offers stay apart. -/
theorem research_within_approved (journal : Run) (fresh : FreshBudget journal) (calls : List Call) :
    let last := run perform journal calls
    (∀ kind, (admitted last.attempts kind : Int) ≤ (researchApprovedLimits last).of kind) ∧
    last.attempts.length ≤ 250 ∧
    last.retrievedBytes + researchReservedBytes last.attempts ≤ inputResearchRetainedByteLimit ∧
    (∀ earlier later, calls = earlier ++ later →
      Grows (researchApprovedLimits (run perform journal earlier)) (researchApprovedLimits last)) ∧
    (researchApprovedLimits last).searches ≤ 30 ∧ (researchApprovedLimits last).pages ≤ 100 ∧
    (researchApprovedLimits last).modelCalls ≤ 60 ∧
    (researchApprovedLimits last).records = (researchBaseLimits journal).records ∧
    (∀ earlier later, calls = earlier ++ later →
      (∃ r ∈ (run perform journal earlier).budgetRequests, r.state = .declined) →
      last.budgetRequests = (run perform journal earlier).budgetRequests ∧
      ∀ now, researchBudgetProposal last now = none) ∧
    (OffersApart journal calls → validateResearchBudgets last = true) := by
  intro last
  have s : Sound last := fresh.run calls
  obtain ⟨hv, hgrows⟩ := s.budgets.limits
  obtain ⟨-, hsearches, -, hpages, -, hmodel, -⟩ := validLimits hv
  refine ⟨s.within.counts, s.within.few, s.within.bytes, ?_, hsearches, hpages, hmodel, ?_, ?_, ?_⟩
  · intro earlier later heq
    simp only [last, heq, run_append]
    exact grows_run (fresh.run earlier) later
  · rw [hgrows.1, (same_run journal calls).1.base]
  · intro earlier later heq d
    simp only [last, heq, run_append]
    exact Declined.run d (fresh.run earlier) later
  · exact fun apart => s.budgets.valid (ids_apart fresh apart)

theorem freshRun_budget : FreshBudget freshRun where
  fresh := ⟨rfl, rfl⟩
  valid := by decide
  moved := by decide
  portable := by decide
  bytes := by decide

theorem research_within_approved_fresh :
    (run perform freshRun [.start, .begin "search" [] "" "" ""]).attempts.length ≤ 250 :=
  (research_within_approved freshRun freshRun_budget [.start, .begin "search" [] "" "" ""]).2.1

end Desk.Research
