import Desk.Research.ChainSound

/-!
# Within what was approved

The counts and the bytes of a run stay within the approved limits, the limits
only grow and stay within the caps, and the budget requests stay valid.
-/

namespace Desk.Research

/-! ## Counts and bytes -/

theorem admitted_keeps {l l' : List Attempt} (h : List.Forall₂ Keeps l l') (kind : Kind) :
    admitted l' kind ≤ admitted l kind := by
  unfold admitted
  induction h with
  | nil => exact Nat.le_refl _
  | @cons a a' l l' k _ ih =>
    have hidle : (decide (a'.kind = kind) && decide (a'.state ≠ .notStarted)) = true →
        (decide (a.kind = kind) && decide (a.state ≠ .notStarted)) = true := by
      simp only [Bool.and_eq_true, decide_eq_true_eq]
      rintro ⟨hk, hs⟩
      exact ⟨k.kind.symm.trans hk, fun hi => hs (k.idle hi)⟩
    rw [List.filter_cons, List.filter_cons]
    split_ifs with h1 h2
    · simp only [List.length_cons]
      omega
    · exact absurd (hidle h1) h2
    · simp only [List.length_cons]
      omega
    · exact ih

theorem admitted_append (l l' : List Attempt) (kind : Kind) :
    admitted (l ++ l') kind = admitted l kind + admitted l' kind := by
  simp [admitted]

theorem admitted_started {a : Attempt} (hs : a.state = .started) (kind : Kind) :
    admitted [a] kind = if a.kind = kind then 1 else 0 := by
  by_cases h : a.kind = kind <;> simp [admitted, hs, h]

theorem admitted_retried (pre post : List Attempt) (previous : Attempt) (id : String) (kind : Kind) :
    admitted (pre ++ retried previous id :: post) kind = admitted (pre ++ previous :: post) kind := by
  rw [admitted_append, admitted_append, ← List.singleton_append, admitted_append, ← List.singleton_append (l := post),
    admitted_append]
  have hone : admitted [retried previous id] kind = admitted [previous] kind := by
    simp only [admitted, List.filter_cons, List.filter_nil, retried]
    split_ifs <;> rfl
  rw [hone]

theorem usage_le_admitted (attempts : List Attempt) (kind : Kind) :
    admittedUsage attempts kind ≤ admitted attempts kind := by
  apply List.Sublist.length_le
  apply List.monotone_filter_right
  intro a h
  simp only [Bool.and_eq_true] at h ⊢
  exact ⟨h.1.1, h.2⟩

/-- The attempts are within the approved limits, and the bytes within theirs. -/
structure Within (run : Run) : Prop where
  counts : ∀ kind, (admitted run.attempts kind : Int) ≤ (researchApprovedLimits run).of kind
  few : run.attempts.length ≤ 250
  reserved : ∀ a ∈ run.attempts, 0 ≤ a.reservedBytes
  bytes : WithinBytes run

theorem reserved_append (l l' : List Attempt) :
    researchReservedBytes (l ++ l') = researchReservedBytes l + researchReservedBytes l' := by
  simp [researchReservedBytes]

theorem Within.join {run : Run} (w : Within run) {m : List Attempt} {a : Attempt} (j : Joins run a)
    (hcount : ∀ kind, admitted m kind = admitted run.attempts kind)
    (hlen : m.length = run.attempts.length)
    (hres : ∀ b ∈ m, 0 ≤ b.reservedBytes) (hsum : researchReservedBytes m = researchReservedBytes run.attempts)
    {next : Run} (hn : next.attempts = m ++ [a]) (hreq : researchApprovedLimits next = researchApprovedLimits run)
    (hret : next.retrievedBytes = run.retrievedBytes) : Within next := by
  refine ⟨?_, ?_, ?_, ?_⟩
  · intro kind
    rw [hn, hreq, admitted_append, hcount, admitted_started j.started]
    have hroom := j.room
    have hle := w.counts kind
    split_ifs with hk
    · subst hk
      omega
    · simpa using hle
  · have := j.few
    rw [hn, List.length_append, List.length_singleton, hlen]
    omega
  · rw [hn]
    intro b hb
    obtain hb | hb := List.mem_append.mp hb
    · exact hres b hb
    · obtain rfl := List.mem_singleton.mp hb
      exact j.reserved
  · have := j.bytes w.bytes
    have hone : researchReservedBytes [a] = a.reservedBytes := by simp [researchReservedBytes]
    rw [WithinBytes, hn, hret, reserved_append, hsum, hone]
    exact this

/-! ## The approved limits -/

/-- At least as much of everything, on as many records. -/
def Grows (l l' : Limits) : Prop :=
  l'.records = l.records ∧ l.searches ≤ l'.searches ∧ l.pages ≤ l'.pages ∧ l.modelCalls ≤ l'.modelCalls

theorem Grows.refl (l : Limits) : Grows l l := ⟨rfl, Int.le_refl _, Int.le_refl _, Int.le_refl _⟩

theorem Grows.trans {a b c : Limits} (h : Grows a b) (h' : Grows b c) : Grows a c :=
  ⟨h'.1.trans h.1, Int.le_trans h.2.1 h'.2.1, Int.le_trans h.2.2.1 h'.2.2.1, Int.le_trans h.2.2.2 h'.2.2.2⟩

theorem Grows.of {l l' : Limits} (h : Grows l l') (kind : Kind) : l.of kind ≤ l'.of kind := by
  obtain ⟨-, hs, hp, hm⟩ := h
  cases kind <;> assumption

/-- The limits after these requests. -/
def approvedFrom (base : Limits) (requests : List BudgetRequest) : Limits :=
  requests.foldl (fun limits request => if request.state = .approved then request.proposed else limits) base

theorem approved_eq (run : Run) : researchApprovedLimits run = approvedFrom (researchBaseLimits run) run.budgetRequests :=
  rfl

theorem approvedFrom_concat (base : Limits) (requests : List BudgetRequest) (request : BudgetRequest) :
    approvedFrom base (requests ++ [request]) =
      if request.state = .approved then request.proposed else approvedFrom base requests := by
  simp [approvedFrom]

/-- Nothing validation reads has moved. -/
structure SameContract (run run' : Run) : Prop where
  recipe : run'.recipe = run.recipe
  portable : run'.portable = run.portable
  continues : run'.continues = run.continues

theorem SameContract.base {run run' : Run} (s : SameContract run run') : researchBaseLimits run' = researchBaseLimits run := by
  rw [researchBaseLimits, researchBaseLimits, s.portable, s.recipe]

theorem SameContract.valid {run run' : Run} (s : SameContract run run') (limits : Limits) :
    validateResearchProposedLimits run' limits = validateResearchProposedLimits run limits := by
  rw [validateResearchProposedLimits, validateResearchProposedLimits, s.portable, s.recipe]

theorem SameContract.request {run run' : Run} (s : SameContract run run') (seen : List String) (current : Limits)
    (request : BudgetRequest) : requestValid run' seen current request = requestValid run seen current request := by
  rw [requestValid, requestValid, s.valid, s.continues]

theorem requestValid_seen (run : Run) (seen : List String) (current : Limits) (request : BudgetRequest) :
    requestValid run seen current request = (!seen.contains request.id && requestValid run [] current request) := by
  simp only [requestValid, List.contains_nil, Bool.not_false, Bool.and_true]
  cases seen.contains request.id <;> simp

/-- The requests after approved ones start from what those left. -/
theorem requestsValid_append (run : Run) (seen : List String) (base : Limits) {init : List BudgetRequest}
    (h : ∀ r ∈ init, r.state = .approved) (rest : List BudgetRequest) :
    requestsValid run seen base (init ++ rest) =
      (requestsValid run seen base init &&
        requestsValid run ((init.map (·.id)).reverse ++ seen) (approvedFrom base init) rest) := by
  induction init generalizing seen base with
  | nil => simp [requestsValid, approvedFrom]
  | cons r init ih =>
    have hr := h r (List.mem_cons_self ..)
    have ih' := ih (r.id :: seen) r.proposed fun x hx => h x (List.mem_cons_of_mem _ hx)
    simp only [List.cons_append, requestsValid, hr, ih', approvedFrom, List.foldl_cons, if_true, List.map_cons,
      List.reverse_cons, List.append_assoc, List.nil_append, Bool.and_assoc]

/-- Requests that were all approved, each under the limits before it. -/
inductive Approvals (run : Run) : List BudgetRequest → Prop
  | nil : Approvals run []
  | concat {init : List BudgetRequest} {r : BudgetRequest} (before : Approvals run init) (state : r.state = .approved)
      (resolved : r.resolvedAt.isSome = true) (reviewed : r.reviewer.isSome = true)
      (valid : requestValid run [] (approvedFrom (researchBaseLimits run) init) r = true) : Approvals run (init ++ [r])

theorem Approvals.approved {run : Run} {requests : List BudgetRequest} (a : Approvals run requests) :
    ∀ r ∈ requests, r.state = .approved := by
  induction a with
  | nil => simp
  | concat before state resolved reviewed valid ih =>
    intro x hx
    obtain hx | hx := List.mem_append.mp hx
    · exact ih x hx
    · rwa [List.mem_singleton.mp hx]

theorem Approvals.same {run run' : Run} (s : SameContract run run') {requests : List BudgetRequest}
    (a : Approvals run requests) : Approvals run' requests := by
  induction a with
  | nil => exact .nil
  | concat before state resolved reviewed valid ih =>
    refine .concat ih state resolved reviewed ?_
    rw [s.request, s.base]
    exact valid

theorem unseen {init : List BudgetRequest} {r : BudgetRequest} (apart : ((init ++ [r]).map (·.id)).Nodup) :
    (init.map (·.id)).Nodup ∧ ((init.map (·.id)).reverse).contains r.id = false := by
  rw [List.map_append, List.nodup_append] at apart
  refine ⟨apart.1, ?_⟩
  rw [List.contains_reverse, Bool.eq_false_iff, ne_eq, List.contains_iff_mem]
  intro h
  exact apart.2.2 _ h _ (by simp) rfl

theorem Approvals.valid {run : Run} {requests : List BudgetRequest} (a : Approvals run requests)
    (apart : (requests.map (·.id)).Nodup) : requestsValid run [] (researchBaseLimits run) requests = true := by
  induction a with
  | nil => rfl
  | concat before state resolved reviewed valid ih =>
    obtain ⟨hinit, hnew⟩ := unseen apart
    rw [requestsValid_append run _ _ before.approved, ih hinit, List.append_nil]
    simp only [requestsValid, requestValid_seen run (List.reverse _), hnew, valid, state, resolved, reviewed,
      Bool.not_false, Bool.and_self]

theorem requestValid_grows {run : Run} {seen : List String} {current : Limits} {r : BudgetRequest}
    (h : requestValid run seen current r = true) :
    r.current = current ∧ Grows current r.proposed ∧ r.proposed ≠ current ∧
      validateResearchProposedLimits run r.proposed = true := by
  simp only [requestValid, Bool.and_eq_true, decide_eq_true_eq] at h
  obtain ⟨⟨⟨hfirst, h1, h2, h3, h4, hne⟩, hv⟩, -⟩ := h
  exact ⟨hfirst.1.1.2, ⟨h1, h2, h3, h4⟩, hne, hv⟩

/-- What valid approvals leave is valid, and no less than the base. -/
theorem Approvals.limits {run : Run} {requests : List BudgetRequest} (a : Approvals run requests)
    (hbase : validateResearchProposedLimits run (researchBaseLimits run) = true) :
    validateResearchProposedLimits run (approvedFrom (researchBaseLimits run) requests) = true ∧
      Grows (researchBaseLimits run) (approvedFrom (researchBaseLimits run) requests) := by
  induction a with
  | nil => exact ⟨hbase, .refl _⟩
  | concat before state resolved reviewed valid ih =>
    obtain ⟨-, hgrows, -, hv⟩ := requestValid_grows valid
    rw [approvedFrom_concat, if_pos state]
    exact ⟨hv, ih.2.trans hgrows⟩

theorem Grows.antisymm {a b : Limits} (h : Grows a b) (h' : Grows b a) : a = b := by
  obtain ⟨hr, hs, hp, hm⟩ := h
  obtain ⟨-, hs', hp', hm'⟩ := h'
  cases a
  cases b
  simp only [Limits.mk.injEq] at *
  omega

/-- A later limit is none of those the approved requests were made under. -/
theorem Approvals.current_ne {run : Run} {requests : List BudgetRequest} (a : Approvals run requests) :
    ∀ r ∈ requests, r.current ≠ approvedFrom (researchBaseLimits run) requests ∧
      Grows r.current (approvedFrom (researchBaseLimits run) requests) := by
  induction a with
  | nil => simp
  | concat before state resolved reviewed valid ih =>
    obtain ⟨hc, hgrows, hne, -⟩ := requestValid_grows valid
    rw [approvedFrom_concat, if_pos state]
    intro x hx
    obtain hx | hx := List.mem_append.mp hx
    · obtain ⟨hxne, hxle⟩ := ih x hx
      refine ⟨fun he => hxne ?_, hxle.trans hgrows⟩
      exact hxle.antisymm (he ▸ hgrows)
    · obtain rfl := List.mem_singleton.mp hx
      rw [hc]
      exact ⟨hne.symm, hgrows⟩

/-- No two requests were made under the same limits. -/
theorem Approvals.currents_concat {run : Run} {init : List BudgetRequest} {r : BudgetRequest} (a : Approvals run init)
    (hinit : (init.map (·.current)).Nodup)
    (valid : requestValid run [] (approvedFrom (researchBaseLimits run) init) r = true) :
    ((init ++ [r]).map (·.current)).Nodup := by
  obtain ⟨hc, -, -, -⟩ := requestValid_grows valid
  rw [List.map_append, List.nodup_append]
  refine ⟨hinit, by simp, ?_⟩
  intro x hx y hy
  obtain ⟨q, hq, rfl⟩ := List.mem_map.mp hx
  rw [List.map_singleton, List.mem_singleton] at hy
  rw [hy, hc]
  exact (a.current_ne q hq).1

theorem Approvals.currents {run : Run} {requests : List BudgetRequest} (a : Approvals run requests) :
    (requests.map (·.current)).Nodup := by
  induction a with
  | nil => exact .nil
  | concat before state resolved reviewed valid ih => exact before.currents_concat ih valid

/-! ## The text of an offer -/

theorem split_at {s : Char} {t t' r r' : List Char} (ht : s ∉ t) (ht' : s ∉ t') (h : t ++ s :: r = t' ++ s :: r') :
    t = t' ∧ r = r' := by
  induction t generalizing t' with
  | nil =>
    cases t' with
    | nil => exact ⟨rfl, List.tail_eq_of_cons_eq h⟩
    | cons c t' => exact absurd (List.mem_cons.mpr (.inl (List.head_eq_of_cons_eq h))) ht'
  | cons c t ih =>
    cases t' with
    | nil => exact absurd (List.mem_cons.mpr (.inl (List.head_eq_of_cons_eq h).symm)) ht
    | cons c' t' =>
      have hc := List.head_eq_of_cons_eq h
      subst hc
      have h' : t ++ s :: r = t' ++ s :: r' := List.tail_eq_of_cons_eq h
      obtain ⟨rfl, hr⟩ := ih (fun hm => ht (List.mem_cons_of_mem _ hm)) (fun hm => ht' (List.mem_cons_of_mem _ hm)) h'
      exact ⟨rfl, hr⟩

theorem isDigit_repr {n : Nat} {c : Char} (h : c ∈ n.repr.toList) : c.isDigit = true := by
  rw [Nat.toList_repr] at h
  exact Nat.isDigit_of_mem_toDigits (by decide) (by decide) h

theorem repr_ne_minus (m n : Nat) : m.repr ≠ "-" ++ n.repr := by
  intro h
  have hc : '-' ∈ m.repr.toList := by
    rw [h]
    simp
  exact absurd (isDigit_repr hc) (by decide)

theorem int_text_injective {m n : Int} (h : toString m = toString n) : m = n := by
  cases m with
  | ofNat a =>
    cases n with
    | ofNat b => exact congrArg Int.ofNat (Nat.repr_injective h)
    | negSucc b => exact absurd h (repr_ne_minus a (b + 1))
  | negSucc a =>
    cases n with
    | ofNat b => exact absurd h.symm (repr_ne_minus b (a + 1))
    | negSucc b =>
      have := Nat.repr_injective ((String.append_right_inj "-").mp h)
      rw [Nat.succ.inj this]

/-- A number has no separator in it. -/
theorem separator_not_mem {c : Char} (hd : c.isDigit = false) (hm : c ≠ '-') (n : Int) : c ∉ (toString n).toList := by
  intro h
  cases n with
  | ofNat a =>
    have := isDigit_repr (n := a) h
    rw [hd] at this
    cases this
  | negSucc a =>
    have h' : c ∈ ("-" ++ (a + 1).repr).toList := h
    rw [String.toList_append] at h'
    obtain h' | h' := List.mem_append.mp h'
    · exact hm (by simpa using h')
    · have := isDigit_repr h'
      rw [hd] at this
      cases this

theorem int_text_split {c : Char} (hd : c.isDigit = false) (hm : c ≠ '-') {m n : Int} {r r' : List Char}
    (h : (toString m).toList ++ c :: r = (toString n).toList ++ c :: r') : m = n ∧ r = r' := by
  obtain ⟨ht, hr⟩ := split_at (separator_not_mem hd hm m) (separator_not_mem hd hm n) h
  exact ⟨int_text_injective (String.toList_inj.mp ht), hr⟩

theorem limits_text {l l' : Limits} {r r' : List Char}
    (h : Json.write Json.escapeChar l.json ++ r = Json.write Json.escapeChar l'.json ++ r') : l = l' := by
  have hcomma : (',' : Char).isDigit = false := by decide
  have hbrace : ('\x7d' : Char).isDigit = false := by decide
  simp only [Limits.json, Json.write, Json.writeMembers, int, List.cons_append, List.append_assoc] at h
  have h := List.cons.inj (List.append_cancel_left (List.cons.inj h).2) |>.2
  obtain ⟨h1, h⟩ := int_text_split hcomma (by decide) h
  have h := List.cons.inj (List.append_cancel_left h) |>.2
  obtain ⟨h2, h⟩ := int_text_split hcomma (by decide) h
  have h := List.cons.inj (List.append_cancel_left h) |>.2
  obtain ⟨h3, h⟩ := int_text_split hcomma (by decide) h
  have h := List.cons.inj (List.append_cancel_left h) |>.2
  obtain ⟨h4, -⟩ := int_text_split hbrace (by decide) h
  cases l
  cases l'
  simp_all

/-- The bytes of an offer say under which limits it was made. -/
theorem offerBytes_current {run run' : Run} {c p u c' p' u' : Limits} (hid : run'.id = run.id)
    (hp : run'.portable = run.portable) (h : offerBytes run c p u = offerBytes run' c' p' u') : c = c' := by
  have hcomma : (',' : Char).isDigit = false := by decide
  unfold offerBytes at h
  rw [hp, hid] at h
  split_ifs at h
  · have h := String.ofList_injective (bytesOf_injective h)
    simp only [Json.write, Json.writeItems, Json.nat] at h
    have h := List.cons.inj (List.append_cancel_left (List.cons.inj h).2) |>.2
    obtain ⟨-, h⟩ := int_text_split (m := run.attempts.length) (n := run'.attempts.length) hcomma (by decide) h
    exact limits_text h
  · have h := String.ofList_injective (bytesOf_injective h)
    simp only [Json.write, Json.writeItems, Json.nat] at h
    have h := List.cons.inj (List.append_cancel_left (List.cons.inj h).2) |>.2
    obtain ⟨-, h⟩ := int_text_split (m := run.step) (n := run'.step) hcomma (by decide) h
    obtain ⟨-, h⟩ := int_text_split (m := run.attempts.length) (n := run'.attempts.length) hcomma (by decide) h
    exact limits_text h

/-! ## Valid requests -/

/-- The last request is still to be decided, or ended the offers. -/
inductive LastRequest (run : Run) (r : BudgetRequest) : Prop
  | pending (state : r.state = .pending) (paused : run.state = .paused) (unresolved : r.resolvedAt = none)
      (unreviewed : r.reviewer = none) : LastRequest run r
  | declined (state : r.state = .declined) (moved : run.state ≠ .paused) (resolved : r.resolvedAt.isSome = true)
      (reviewed : r.reviewer.isSome = true) : LastRequest run r

/-- Every request is approved, but the last may be pending or declined. -/
inductive Requests (run : Run) : Prop
  | approved (approvals : Approvals run run.budgetRequests) (moved : run.state ≠ .paused) : Requests run
  | last (init r) (split : run.budgetRequests = init ++ [r]) (approvals : Approvals run init)
      (valid : requestValid run [] (approvedFrom (researchBaseLimits run) init) r = true)
      (end_ : LastRequest run r) : Requests run

/-- The contract of a run is valid, and so are its requests. -/
structure Budgets (run : Run) : Prop where
  base : validateResearchProposedLimits run (researchBaseLimits run) = true
  portable : run.portable.isSome = true → run.continues = false ∧ run.records = 0
  few : run.budgetRequests.length ≤ 16
  requests : Requests run

theorem pendingResearchBudget_concat {run : Run} {init : List BudgetRequest} {r : BudgetRequest}
    (h : run.budgetRequests = init ++ [r]) :
    pendingResearchBudget run = if r.state = .pending then some r else none := by
  simp only [pendingResearchBudget, h, List.getLast?_append, List.getLast?_singleton, Option.some_or, Option.filter,
    decide_eq_true_eq]

theorem pendingResearchBudget_approved {run : Run} (h : ∀ r ∈ run.budgetRequests, r.state = .approved) :
    pendingResearchBudget run = none := by
  obtain hnil | ⟨init, r, hr⟩ := List.eq_nil_or_concat run.budgetRequests
  · simp [pendingResearchBudget, hnil]
  · rw [List.concat_eq_append] at hr
    rw [pendingResearchBudget_concat hr, h r (by simp [hr])]
    rfl

theorem Budgets.valid {run : Run} (b : Budgets run) (apart : (run.budgetRequests.map (·.id)).Nodup) :
    validateResearchBudgets run = true := by
  have hfew := b.few
  unfold validateResearchBudgets
  cases b.requests with
  | approved approvals moved => simp [hfew, approvals.valid apart, moved]
  | last init r split approvals valid end_ =>
    rw [split] at apart
    obtain ⟨hinit, hnew⟩ := unseen apart
    have hsplit : requestsValid run [] (researchBaseLimits run) run.budgetRequests =
        requestsValid run ((init.map (·.id)).reverse) (approvedFrom (researchBaseLimits run) init) [r] := by
      rw [split, requestsValid_append run _ _ approvals.approved, approvals.valid hinit, Bool.true_and, List.append_nil]
    have hv : requestValid run ((init.map (·.id)).reverse) (approvedFrom (researchBaseLimits run) init) r = true := by
      rw [requestValid_seen, hnew, valid]
      rfl
    rw [hsplit, pendingResearchBudget_concat split, decide_eq_true hfew]
    cases end_ with
    | pending state paused unresolved unreviewed =>
      simp [requestsValid, hv, state, paused, unresolved, unreviewed]
    | declined state moved resolved reviewed =>
      simp [requestsValid, hv, state, moved, resolved, reviewed]

theorem Budgets.currents {run : Run} (b : Budgets run) : (run.budgetRequests.map (·.current)).Nodup := by
  cases b.requests with
  | approved approvals moved => exact approvals.currents
  | last init r split approvals valid end_ =>
    rw [split]
    exact approvals.currents_concat approvals.currents valid

/-- The limits a run has been approved are those of its approved requests. -/
theorem Budgets.approved {run : Run} (b : Budgets run) :
    ∃ init, Approvals run init ∧ researchApprovedLimits run = approvedFrom (researchBaseLimits run) init ∧
      (∀ r ∈ init, r ∈ run.budgetRequests) := by
  cases b.requests with
  | approved approvals moved => exact ⟨run.budgetRequests, approvals, rfl, fun r h => h⟩
  | last init r split approvals valid end_ =>
    refine ⟨init, approvals, ?_, fun x hx => by rw [split]; exact List.mem_append_left _ hx⟩
    rw [approved_eq, split, approvedFrom_concat, if_neg]
    cases end_ with
    | pending state => simp [state]
    | declined state => simp [state]

theorem Budgets.limits {run : Run} (b : Budgets run) :
    validateResearchProposedLimits run (researchApprovedLimits run) = true ∧
      Grows (researchBaseLimits run) (researchApprovedLimits run) := by
  obtain ⟨init, approvals, heq, -⟩ := b.approved
  rw [heq]
  exact approvals.limits b.base

/-- A transaction that leaves the requests and the pause as they were. -/
theorem Budgets.same {run next : Run} (b : Budgets run) (s : SameContract run next)
    (hreq : next.budgetRequests = run.budgetRequests) (hrec : run.portable.isSome = true → next.records = run.records)
    (hstate : next.state = .paused ↔ run.state = .paused) : Budgets next := by
  refine ⟨?_, ?_, ?_, ?_⟩
  · rw [s.valid, s.base]
    exact b.base
  · intro hp
    rw [s.portable] at hp
    rw [s.continues, hrec hp]
    exact b.portable hp
  · rw [hreq]
    exact b.few
  · cases b.requests with
    | approved approvals moved =>
      refine .approved ?_ (fun h => moved (hstate.mp h))
      rw [hreq]
      exact approvals.same s
    | last init r split approvals valid end_ =>
      refine .last init r (hreq.trans split) (approvals.same s) ?_ ?_
      · rw [s.request, s.base]
        exact valid
      · cases end_ with
        | pending state paused unresolved unreviewed =>
          exact .pending state (hstate.mpr paused) unresolved unreviewed
        | declined state moved resolved reviewed =>
          exact .declined state (fun h => moved (hstate.mp h)) resolved reviewed

/-! ## Offers -/

/-- What an offer proposes is a strict, valid increase. -/
structure Increase (run : Run) (current proposed : Limits) : Prop where
  grows : Grows current proposed
  more : proposed ≠ current
  valid : validateResearchProposedLimits run proposed = true

theorem validLimits {run : Run} {limits : Limits} (h : validateResearchProposedLimits run limits = true) :
    0 ≤ limits.searches ∧ limits.searches ≤ 30 ∧ 0 ≤ limits.pages ∧ limits.pages ≤ 100 ∧ 1 ≤ limits.modelCalls ∧
      limits.modelCalls ≤ 60 ∧ 1 ≤ limits.records := by
  unfold validateResearchProposedLimits at h
  split_ifs at h
  · simp only [validatePortableResearchLimits, decide_eq_true_eq] at h
    omega
  · simp only [validateInputResearch, Bool.and_eq_true, decide_eq_true_eq] at h
    omega

theorem portableProposed_increase {run : Run} {portable : Portable} {proposed : Limits}
    (h : portableProposed run portable = some proposed) (hp : run.portable = some portable)
    (hv : validateResearchProposedLimits run (researchApprovedLimits run) = true) :
    Increase run (researchApprovedLimits run) proposed ∧ portable.response = [] ∧ run.budgetRequests.length < 16 ∧
      ∀ r ∈ run.budgetRequests, r.state ≠ .declined := by
  have hcaps : validatePortableResearchLimits (researchApprovedLimits run) = true := by
    simpa [validateResearchProposedLimits, hp] using hv
  simp only [validatePortableResearchLimits, decide_eq_true_eq] at hcaps
  unfold portableProposed at h
  dsimp only at h
  rw [Option.ite_none_left_eq_some, Option.ite_none_left_eq_some, Option.ite_none_left_eq_some] at h
  obtain ⟨hguard, hdeclined, -, h⟩ := h
  cases hc : portable.capabilities with
  | none => simp [hc] at h
  | some capabilities =>
    rw [hc] at h
    dsimp only at h
    rw [Option.ite_none_left_eq_some] at h
    obtain ⟨hend, h⟩ := h
    obtain rfl := Option.some.inj h
    push Not at hguard hend
    refine ⟨⟨⟨rfl, ?_, ?_, ?_⟩, hend.1, ?_⟩, hguard.2.1, hguard.2.2.1, ?_⟩
    · dsimp only
      split <;> omega
    · dsimp only
      split <;> omega
    · dsimp only
      split <;> omega
    · simpa [validateResearchProposedLimits, hp] using hend.2
    · simpa [List.any_eq_true] using hdeclined

theorem recipeProposed_increase {run : Run} {proposed : Limits} (h : recipeProposed run = some proposed)
    (hp : run.portable = none) (hv : validateResearchProposedLimits run (researchApprovedLimits run) = true)
    (hrec : (researchApprovedLimits run).records = run.recipe.limits.records) :
    Increase run (researchApprovedLimits run) proposed ∧ (run.records : Int) < run.recipe.limits.records ∧
      run.continues = false ∧ run.budgetRequests.length < 16 ∧ ∀ r ∈ run.budgetRequests, r.state ≠ .declined := by
  have hvalid : validateInputResearch { run.recipe with limits := researchApprovedLimits run } = true := by
    simpa [validateResearchProposedLimits, hp] using hv
  simp only [validateInputResearch, Bool.and_eq_true, decide_eq_true_eq] at hvalid
  obtain ⟨⟨⟨hother, hretries⟩, hcaps⟩, hsearch⟩ := hvalid
  unfold recipeProposed at h
  dsimp only at h
  rw [Option.ite_none_left_eq_some, Option.ite_none_left_eq_some, Option.ite_none_left_eq_some,
    Option.ite_none_left_eq_some, Option.ite_none_left_eq_some, Option.ite_none_left_eq_some,
    Option.ite_none_left_eq_some] at h
  obtain ⟨hguard, -, hdeclined, -, -, -, hmore, h⟩ := h
  obtain rfl := Option.some.inj h
  push Not at hguard
  obtain ⟨-, hcontinues, hfew, hrecords⟩ := hguard
  have hremaining : 1 ≤ (researchApprovedLimits run).records - run.records := by omega
  refine ⟨⟨⟨rfl, ?_, ?_, ?_⟩, hmore, ?_⟩, hrecords, by simpa using hcontinues, hfew, ?_⟩
  · dsimp only
    split <;> omega
  · dsimp only
    split <;> omega
  · dsimp only
    split <;> omega
  · simp only [validateResearchProposedLimits, hp, Option.isSome_none, Bool.false_eq_true, if_false,
      validateInputResearch, Bool.and_eq_true, decide_eq_true_eq]
    refine ⟨⟨⟨hother, hretries⟩, hcaps.1, hcaps.2.1, ?_, ?_, ?_, ?_, ?_, ?_⟩, ?_⟩
    · split <;> omega
    · split <;> omega
    · split <;> omega
    · split <;> omega
    · split <;> omega
    · split <;> omega
    · -- More searches are offered only where a search connection is chosen.
      split
      · rename_i hs
        simp [hs.1]
      · exact hsearch
  · simpa [List.any_eq_true] using hdeclined

end Desk.Research
