import Desk.Service.OperationsSound

/-!
# Operations are idempotent

Whatever commands come in between, an operation id is committed at most once,
and the request it was committed for is answered as it was then.
-/

namespace Desk

open ExecutionCall (at_)

/-! ## The room of a reading -/

/-- A formatted time has no character to escape. -/
theorem Utc.escapeChar_format (t : Utc) : ∀ c ∈ t.format.toList, Json.escapeChar c = [c] := by
  have hrepr : ∀ n : Nat, ∀ c ∈ (Nat.repr n).toList, c.isDigit = true := by
    intro n c hc
    rw [Nat.repr, String.toList_ofList] at hc
    exact Nat.isDigit_of_mem_toDigits (by decide) (by decide) hc
  have htwo : ∀ n < 100, ∀ c ∈ two n, c.isDigit = true := by
    intro n hn c hc
    simp only [two, List.mem_cons, List.not_mem_nil, or_false] at hc
    rcases hc with rfl | rfl <;> rw [Nat.isDigit_digitChar, decide_eq_true_eq] <;> omega
  have hfour : ∀ n < 10000, ∀ c ∈ four n, c.isDigit = true := by
    intro n hn c hc
    rcases List.mem_append.mp hc with hc | hc
    · exact htwo _ (by omega) c hc
    · exact htwo _ (by omega) c hc
  have hyear : ∀ c ∈ yearText t.year, Json.escapeChar c = [c] := by
    intro c hc
    unfold yearText at hc
    split at hc
    · refine Json.escapeChar_of_isDigit ?_
      split at hc
      · exact hfour _ (by omega) c hc
      · exact hrepr _ c hc
    · rcases List.mem_cons.mp hc with rfl | hc
      · rfl
      · refine Json.escapeChar_of_isDigit ?_
        split at hc
        · exact hfour _ (by omega) c hc
        · exact hrepr _ c hc
  intro c hc
  have hday := t.day_lt
  have hmonth := t.month_lt
  have hclock := t.clock_ok
  simp only [format, String.toList_ofList, chars, List.mem_append, List.mem_cons, List.not_mem_nil, or_false] at hc
  rcases hc with hc | rfl | hc | rfl | hc | rfl | hc | rfl | hc | rfl | hc | rfl
  · exact hyear c hc
  · rfl
  · exact Json.escapeChar_of_isDigit (htwo _ hmonth c hc)
  · rfl
  · exact Json.escapeChar_of_isDigit (htwo _ hday c hc)
  · rfl
  · exact Json.escapeChar_of_isDigit (htwo _ (by omega) c hc)
  · rfl
  · exact Json.escapeChar_of_isDigit (htwo _ (by omega) c hc)
  · rfl
  · exact Json.escapeChar_of_isDigit (htwo _ (by omega) c hc)
  · rfl

theorem length_marshal_executionTime {s : String} (h : executionTime s = true) : (Json.str s).marshal.length = 22 := by
  unfold executionTime at h
  split at h
  · rename_i t _
    simp only [Bool.and_eq_true, decide_eq_true_eq, beq_iff_eq] at h
    obtain ⟨hlen, _, rfl⟩ := h
    rw [Json.length_marshal_str t.escapeChar_format, hlen]
  · simp at h

/-- Another reading takes the same room. -/
theorem length_marshal_observed {l : PolicyLedger} {e : PolicyExecutionState} {now : String} (he : l.execution = some e)
    (hlast : executionTime e.lastTime = true) (hnow : executionTime now = true) :
    (l.observed now).toJson.marshal.length = l.toJson.marshal.length := by
  have hstate : (at_ e now).toJson.marshal.length = e.toJson.marshal.length := by
    unfold PolicyExecutionState.toJson
    refine Json.length_marshal_obj ?_
    have hlast := length_marshal_executionTime hlast
    have hnow := length_marshal_executionTime hnow
    refine .cons ⟨rfl, rfl⟩ (.cons ⟨rfl, rfl⟩ (.cons ⟨rfl, rfl⟩ (.cons ⟨rfl, hnow.trans hlast.symm⟩ ?_)))
    exact List.forall₂_same.mpr fun _ _ => ⟨rfl, rfl⟩
  unfold PolicyLedger.toJson
  rw [PolicyLedger.observed_execution, he]
  simp only [Option.map_some, Json.optMember, List.cons_append, List.nil_append]
  exact Json.length_marshal_obj (.cons ⟨rfl, hstate⟩ (List.forall₂_same.mpr fun _ _ => ⟨rfl, rfl⟩))
/-! ## A command that is answered again -/

/-- A call that is served: its session is authorized, what was retained is read back, and the storage is quiet. -/
structure Call.Serves (call : Call) (result : PolicyMutationReply) : Prop where
  authorized : ∀ n, call.authorized n = true
  retained : call.retained (artifactReference result.toJson.marshal) = some result.toJson.marshal
  reads : call.codec.reply result.toJson.marshal = some result
  quiet : call.storage = ⟨none, none⟩

/-- A command that is served: its view is quiet too, and under execution authority its clock is not behind. -/
def RepositoryCommand.Served (c : RepositoryCommand) (l : PolicyLedger) (result : PolicyMutationReply) : Prop :=
  c.call.Serves result ∧
    match c with
    | policy call _ _ => call.reading = ⟨none, none⟩
    | source _ _ _ _ _ _ => True
    | sourceStatus call _ _ _ _ => call.reading = ⟨none, none⟩
    | lifecycle c => ∀ e, l.execution = some e →
        (1970 ≤ c.call.clock.year ∧ c.call.clock.year ≤ 9999) ∧ e.lastTime ≤ c.call.lifecycleNow

/-- The same request by the same actor, over another call. -/
def RepositoryCommand.Resends : RepositoryCommand → RepositoryCommand → Prop
  | policy _ q' actor', policy _ q actor => q' = q ∧ actor' = actor
  | source _ id' actor' q' _ _, source _ id actor q _ _ => id' = id ∧ actor' = actor ∧ q' = q
  | sourceStatus _ id' actor' q' _, sourceStatus _ id actor q _ => id' = id ∧ actor' = actor ∧ q' = q
  | lifecycle c', lifecycle c => c'.id = c.id ∧ c'.actor = c.actor ∧ c'.request = c.request
  | _, _ => False

theorem RepositoryCommand.Resends.identity {c' c : RepositoryCommand} (h : c'.Resends c) : c'.identity = c.identity := by
  cases c' <;> cases c <;> simp only [RepositoryCommand.Resends] at h
  · obtain ⟨rfl, rfl⟩ := h; rfl
  · obtain ⟨rfl, rfl, rfl⟩ := h; rfl
  · obtain ⟨rfl, rfl, rfl⟩ := h; rfl
  · obtain ⟨hid, hactor, hrequest⟩ := h
    simp only [RepositoryCommand.identity, hid, hactor, hrequest]

theorem RepositoryCommand.Resends.admitted {c' c : RepositoryCommand} (h : c'.Resends c) {l l' : PolicyLedger}
    (hexec : l'.execution.isSome = l.execution.isSome) (hadm : c.Admitted l) : c'.Admitted l' := by
  cases c' <;> cases c <;> simp only [RepositoryCommand.Resends] at h
  · obtain ⟨rfl, rfl⟩ := h; exact hadm
  · obtain ⟨rfl, rfl, rfl⟩ := h; exact hadm
  · obtain ⟨rfl, rfl, rfl⟩ := h; exact hadm
  · obtain ⟨hid, hactor, hrequest⟩ := h
    simp only [RepositoryCommand.Admitted, hid, hactor, hrequest, hexec] at hadm ⊢
    exact hadm

/-- What `l` keeps, `l'` keeps. -/
def Keeps (l l' : PolicyLedger) : Prop :=
  ∀ key operation, l.operations.get? key = some operation → l'.operations.get? key = some operation

theorem Keeps.trans {l₁ l₂ l₃ : PolicyLedger} (h : Keeps l₁ l₂) (h' : Keeps l₂ l₃) : Keeps l₁ l₃ :=
  fun key operation hop => h' key operation (h key operation hop)

section
variable {base next l : PolicyLedger} {command : PolicyCommandIdentity} {result : PolicyMutationReply}

theorem Decided.keeps (h : Decided base next command result) : Keeps base next := by
  obtain ⟨_, _, _, hset⟩ := h.entered
  intro key operation hop
  rw [hset, Table.get?_set_ne _ _ fun hkey => ?_]
  · exact hop
  · rw [hkey, h.fresh] at hop
    cases hop

/-- A decided operation is recovered in every ledger that keeps it. -/
theorem Decided.recovered (h : Decided base next command result) (hn : LedgerValid next) (hkeeps : Keeps next l)
    {call : Call} (hserves : call.Serves result) (n : Nat) :
    call.recovered n l command = .ok (some { result with delivery := .recovered }) := by
  obtain ⟨policyID, hpolicy, hreceipt, hset⟩ := h.entered
  have hentry : next.operations.get? command.operationID = some ⟨command.operationID, command.kind, policyID,
      command.requestDigest, artifactReference result.toJson.marshal⟩ := by
    rw [hset]
    exact Table.get?_set_self _ _ _
  have hvalid := hn.operations _ _ hentry
  simp only [validPolicyOperation, Bool.and_eq_true] at hvalid
  have hget : call.get (artifactReference result.toJson.marshal) = .ok result.toJson.marshal := by
    unfold Call.get
    rw [hserves.retained]
    simp [verifyRetainedArtifact, hvalid.2]
  have hstored : call.retainedReply (artifactReference result.toJson.marshal) = .ok result := by
    unfold Call.retainedReply
    rw [hget]
    exact found_eq_ok.mpr hserves.reads
  have hagrees : (command.kind == .create || policyID == command.policyID) = true := by
    by_cases hk : command.kind = .create
    · simp [hk]
    · simp [hpolicy hk]
  obtain ⟨h₁, h₂, h₃, h₄, h₅⟩ := h.consistent hn
  obtain ⟨hdelivery, hoperation, hkind, hdigest, hpol, hactor⟩ := hreceipt
  unfold Call.recovered
  rw [hkeeps _ _ hentry]
  simp only [bind_eq_ok, require_eq_ok]
  refine ⟨(), by simp [hagrees], result, hstored, (), ?_, (), ?_, rfl⟩
  · simp [hdelivery, hoperation, hkind, hdigest, hpol, hactor, h₁, h₂, h₃, h₄, h₅]
  · exact require_eq_ok.mpr (hserves.authorized n)

end

/-- On a quiet storage a transaction that changes nothing answers. -/
theorem Storage.update_kept {α : Type} {use : Transaction α} {l next : PolicyLedger} {a : α}
    (h : use l = .ok (false, next, a)) : Storage.update ⟨none, none⟩ use l = (.ok a, l) := by
  simp only [update, h, answer]

theorem Storage.update_taken {α : Type} {use : Transaction α} {l next : PolicyLedger} {a : α}
    (h : use l = .ok (true, next, a)) (hv : validatePolicyLedger next = true)
    (hsize : next.toJson.marshal.length ≤ policyLedgerLimit) :
    Storage.update ⟨none, none⟩ use l = (.ok a, next.committed) := by
  simp only [update, h, hv, Bool.not_true, Bool.false_eq_true, if_false, if_neg (Nat.not_lt.mpr hsize)]

/-- Another reading of a valid ledger. -/
theorem LedgerValid.observed {l : PolicyLedger} {e : PolicyExecutionState} {now : String} (hv : LedgerValid l)
    (he : l.execution = some e) (hle : e.lastTime ≤ now) (hnow : executionTime now = true) :
    LedgerValid (l.observed now) := by
  rcases validatePolicyExecution_iff.mp hv.execution with ⟨_, hnone⟩ | ⟨hs, e', he', hex⟩
  · rw [hnone] at he; cases he
  · rw [he] at he'
    cases he'
    have := hv.with_execution hs (hex.of_at hle hnow)
    unfold PolicyLedger.observed
    rw [he]
    exact this

/-! ## The answer to a re-sent command -/

section
variable {base next seen l : PolicyLedger} {command : PolicyCommandIdentity} {result : PolicyMutationReply}

theorem policy_answered {call : PolicyCall} {q : PolicyRequest} {actor : PolicyActor}
    (hident : (RepositoryCommand.policy call q actor).identity = some command) (hd : Decided base next command result)
    (hn : LedgerValid next) (hseen : Keeps next seen) (hadm : (RepositoryCommand.policy call q actor).Admitted l)
    (hs : (RepositoryCommand.policy call q actor).Served l result) :
    (call.execute q actor seen l).1 = .ok { result with delivery := .recovered } := by
  cases hident
  obtain ⟨hserves, hreading⟩ := hs
  have hview : call.reading.view (call.inspect q actor) seen = .ok (.inl { result with delivery := .recovered }) := by
    rw [hreading]
    simp only [Storage.view, Storage.answer, PolicyCall.inspect, bind_eq_ok]
    refine ⟨(), require_eq_ok.mpr (hserves.authorized 1), _, hd.recovered hn hseen hserves 2, rfl⟩
  have hcheck : (do
      call.authorize 0
      require (policyOperationIDForm q.operationID) (policyRefusal 400 "bad-request"
        "Provide a unique operation ID of 16–128 letters, digits, hyphens or underscores.")) =
      (.ok () : Except GoError Unit) := by
    simp only [bind_eq_ok, require_eq_ok]
    exact ⟨(), require_eq_ok.mpr (hserves.authorized 0), hadm⟩
  unfold PolicyCall.execute
  simp only [hcheck, hview]

theorem source_answered {call : Call} {id : String} {actor : PolicyActor} {q : PolicySourceSyncRequest} {authority : String}
    {supported : Bool} (hident : (RepositoryCommand.source call id actor q authority supported).identity = some command)
    (hd : Decided base next command result) (hn : LedgerValid next) (hkeeps : Keeps next l)
    (hadm : (RepositoryCommand.source call id actor q authority supported).Admitted l)
    (hs : (RepositoryCommand.source call id actor q authority supported).Served l result) :
    (call.sourceCommand id actor q authority supported l).1 = .ok { result with delivery := .recovered } := by
  obtain ⟨action, haction, rfl⟩ := Option.map_eq_some_iff.mp hident
  have hserves : call.Serves result := hs.1
  have hadm : policyOperationIDForm q.operationID = true := hadm
  have hup : call.sourceUpdate ⟨id, actor, q, authority, supported, call.clock.format⟩ action l =
      .ok (false, l, { result with delivery := .recovered }) := by
    simp only [Call.sourceUpdate, bind_eq_ok]
    exact ⟨(), require_eq_ok.mpr (hserves.authorized 0), _, hd.recovered hn hkeeps hserves 1, rfl⟩
  unfold Call.sourceCommand
  simp only [haction, hadm, Bool.not_true, Bool.false_eq_true, if_false, hserves.quiet]
  rw [Storage.update_kept hup]

theorem sourceStatus_answered {call : PolicyCall} {id : String} {actor : PolicyActor} {q : PolicySourceStatusRequest}
    {authority : String} (hident : (RepositoryCommand.sourceStatus call id actor q authority).identity = some command)
    (hd : Decided base next command result) (hn : LedgerValid next) (hseen : Keeps next seen)
    (hadm : (RepositoryCommand.sourceStatus call id actor q authority).Admitted l)
    (hs : (RepositoryCommand.sourceStatus call id actor q authority).Served l result) :
    (call.sourceStatusCommand id actor q authority seen l).1 = .ok { result with delivery := .recovered } := by
  obtain ⟨kind, hkind, rfl⟩ := Option.map_eq_some_iff.mp hident
  obtain ⟨hserves, hreading⟩ := hs
  obtain ⟨hform, hblank, hlen⟩ := hadm
  have hview : call.reading.view (fun l => do
      call.authorize 0
      call.recovered 1 l (sourceStatusIdentity id actor q kind)) seen =
      .ok (some { result with delivery := .recovered }) := by
    rw [hreading]
    simp only [Storage.view, Storage.answer, bind_eq_ok]
    exact ⟨(), require_eq_ok.mpr (hserves.authorized 0), hd.recovered hn hseen hserves 1⟩
  unfold PolicyCall.sourceStatusCommand
  simp only [hkind, hform, hblank, decide_eq_false (Nat.not_lt.mpr hlen), Bool.not_true, Bool.or_false,
    Bool.false_eq_true, if_false, hview]

theorem lifecycle_answered {c : LifecycleCommand} (hident : (RepositoryCommand.lifecycle c).identity = some command)
    (hd : Decided base next command result) (hn : LedgerValid next) (hkeeps : Keeps next l) (hv : LedgerValid l)
    (hsize : l.toJson.marshal.length ≤ policyLedgerLimit) (hadm : (RepositoryCommand.lifecycle c).Admitted l)
    (hs : (RepositoryCommand.lifecycle c).Served l result) :
    (c.call.lifecycleCommand c.id c.actor c.request l).1 = .ok { result with delivery := .recovered } := by
  obtain ⟨action, haction, rfl⟩ := Option.map_eq_some_iff.mp hident
  obtain ⟨hserves, hclock⟩ := hs
  have hserves : c.call.Serves result := hserves
  obtain ⟨hform, hadm⟩ := hadm
  have huse : ∀ {l' : PolicyLedger} (reading : String), Keeps next l' →
      c.call.lifecycleUse c.id c.actor c.request action l' reading =
        .ok (false, l', { result with delivery := .recovered }) := by
    intro l' reading hk
    simp only [Call.lifecycleUse, bind_eq_ok]
    exact ⟨(), require_eq_ok.mpr (hserves.authorized 0), _, hd.recovered hn hk hserves 1, rfl⟩
  unfold Call.lifecycleCommand
  simp only [haction, hform, Bool.not_true, Bool.false_eq_true, if_false, hserves.quiet]
  cases he : l.execution with
  | none =>
    have hup : c.call.lifecycleAuthorityUpdate c.id c.actor c.request action l =
        .ok (false, l, .ok { result with delivery := .recovered }) := by
      unfold Call.lifecycleAuthorityUpdate
      simp only [he, bind_eq_ok]
      exact ⟨_, huse "" hkeeps, rfl⟩
    simp only [Storage.command, Storage.update_kept hup]
  | some e =>
    obtain ⟨hyear, hlast⟩ := hclock e he
    have htime : executionTime c.call.lifecycleNow = true := executionTime_format hyear
    have hlife : validPolicyLifecycleTime c.call.lifecycleNow = true :=
      validPolicyLifecycleTime_format ⟨by omega, by omega⟩
    have hobserved := hv.observed he hlast htime
    have hroom : (l.observed c.call.lifecycleNow).toJson.marshal.length ≤ policyLedgerLimit := by
      rw [length_marshal_observed he (hv.executionValid he).lastTime htime]
      exact hsize
    have hup : c.call.lifecycleAuthorityUpdate c.id c.actor c.request action l =
        .ok (decide (e.lastTime < c.call.lifecycleNow), l.observed c.call.lifecycleNow,
          .ok { result with delivery := .recovered }) := by
      unfold Call.lifecycleAuthorityUpdate
      simp only [he, bind_eq_ok, require_eq_ok]
      refine ⟨(), require_eq_ok.mpr (hserves.authorized 3), (), hadm (by rw [he]; rfl) action haction, (),
        by simp [hlife, hlast], l, ?_, (), require_eq_ok.mpr (hserves.authorized 4), ?_⟩
      · unfold PolicyLedger.reread
        rw [if_pos]
        simp [hsize, ledgerValid_iff.mpr hv]
      · have hkeeps' : Keeps next (l.observed c.call.lifecycleNow) := hkeeps
        rw [huse _ hkeeps']
        show Except.ok _ = Except.ok _
        simp only [observe, bind, Except.bind, pure, Except.pure, Bool.or_false]
    cases hc : decide (e.lastTime < c.call.lifecycleNow) with
    | false =>
      rw [hc] at hup
      simp only [Storage.command, Storage.update_kept hup]
    | true =>
      rw [hc] at hup
      simp only [Storage.command, Storage.update_taken hup (ledgerValid_iff.mpr hobserved) hroom]

end

theorem apply_effect (seen : PolicyLedger) {l : PolicyLedger} (hv : LedgerValid l) (c : RepositoryCommand) :
    CommandEffect c seen l (c.apply seen l).1 (c.apply seen l).2 := by
  cases c with
  | policy call q actor => exact policy_effect hv call q actor
  | source call id actor q authority supported => exact source_effect hv call id actor q authority supported
  | sourceStatus call id actor q authority => exact sourceStatus_effect hv call id actor q authority
  | lifecycle c => exact lifecycle_effect c

theorem apply_answered {base next seen l : PolicyLedger} {command : PolicyCommandIdentity} {result : PolicyMutationReply}
    {c : RepositoryCommand} (hident : c.identity = some command) (hd : Decided base next command result)
    (hn : LedgerValid next) (hseen : Keeps next seen) (hkeeps : Keeps next l) (hv : LedgerValid l)
    (hsize : l.toJson.marshal.length ≤ policyLedgerLimit) (hadm : c.Admitted l) (hs : c.Served l result) :
    (c.apply seen l).1 = .ok { result with delivery := .recovered } := by
  cases c with
  | policy call q actor => exact policy_answered hident hd hn hseen hadm hs
  | source call id actor q authority supported => exact source_answered hident hd hn hkeeps hadm hs
  | sourceStatus call id actor q authority => exact sourceStatus_answered hident hd hn hseen hadm hs
  | lifecycle c => exact lifecycle_answered hident hd hn hkeeps hv hsize hadm hs

/-- Nothing above the limit is stored. -/
theorem apply_size (seen : PolicyLedger) {l : PolicyLedger} (h : l.toJson.marshal.length ≤ policyLedgerLimit) (c : RepositoryCommand) :
    (c.apply seen l).2.toJson.marshal.length ≤ policyLedgerLimit := by
  have hup : ∀ {s : Storage} {use : Transaction PolicyMutationReply},
      (s.update use l).2.toJson.marshal.length ≤ policyLedgerLimit := by
    intro s use
    cases hu : s.update use l with
    | mk answer l' =>
      rcases Storage.update_size hu with rfl | hl
      · exact h
      · exact hl
  cases c with
  | policy call q actor =>
    simp only [RepositoryCommand.apply, PolicyCall.execute]
    split
    · exact h
    · split
      · exact h
      · exact h
      · split
        · exact h
        · exact hup
  | source call id actor q authority supported =>
    simp only [RepositoryCommand.apply, Call.sourceCommand]
    split
    · exact h
    · split
      · exact h
      · exact hup
  | sourceStatus call id actor q authority =>
    simp only [RepositoryCommand.apply, PolicyCall.sourceStatusCommand]
    split
    · exact h
    · split
      · exact h
      · split
        · exact h
        · exact h
        · split
          · exact h
          · exact hup
  | lifecycle c =>
    simp only [RepositoryCommand.apply, Call.lifecycleCommand]
    split
    · exact h
    · split
      · exact h
      · rename_i action _ _
        cases hu : c.call.storage.command (c.call.lifecycleAuthorityUpdate c.id c.actor c.request action) l with
        | mk answer l' =>
          rcases Storage.command_size hu with rfl | hl
          · exact h
          · exact hl

/-! ## Runs -/

namespace Repository

/-- The step enters the operation of its command, with that answer. -/
def Commits (r : Repository) (s : Submission) (command : PolicyCommandIdentity) (result : PolicyMutationReply) : Prop :=
  s.command.identity = some command ∧ Decided r.ledger (r.step s).ledger command result

/-- The step leaves the ledger; a lifecycle command under execution authority leaves its reading in it. -/
def Leaves (r : Repository) (s : Submission) : Prop :=
  (r.step s).ledger = r.ledger ∨ ∃ c, s.command = .lifecycle c ∧ r.ledger.execution.isSome = true ∧
    (r.step s).ledger = (r.ledger.observed c.call.lifecycleNow).committed

/-- A ledger that may be stored, after ledgers whose operations it has. -/
structure Sound (r : Repository) : Prop where
  valid : LedgerValid r.ledger
  size : r.ledger.toJson.marshal.length ≤ policyLedgerLimit
  past : ∀ l ∈ r.past, Keeps l r.ledger

theorem Sound.viewed {r : Repository} (h : r.Sound) (n : Nat) : Keeps (r.viewed n) r.ledger := by
  have hrefl : Keeps r.ledger r.ledger := fun _ _ hop => hop
  unfold Repository.viewed
  cases hl : (r.ledger :: r.past)[n]? with
  | none => exact hrefl
  | some l =>
    rcases List.mem_cons.mp (List.mem_of_getElem? hl) with rfl | hmem
    · exact hrefl
    · exact h.past l hmem

section
variable {r : Repository} {s : Submission}

/-- A step commits, or it leaves the ledger and recalls what it answers. -/
theorem Sound.step_cases (h : r.Sound) :
    (∃ command result, r.Commits s command result ∧ s.command.Admitted r.ledger ∧ LedgerValid (r.step s).ledger) ∨
      r.Leaves s ∧ LedgerValid (r.step s).ledger ∧ Repeats s.command (r.viewed s.view) r.ledger (r.answer s).1 := by
  have heffect := apply_effect (r.viewed s.view) h.valid s.command
  generalize hr : (s.command.apply (r.viewed s.view) r.ledger).1 = answer at heffect
  generalize hl : (s.command.apply (r.viewed s.view) r.ledger).2 = left at heffect
  have hleft : (r.step s).ledger = left := hl
  have hanswer : (r.answer s).1 = answer := hr
  unfold Commits Leaves
  rw [hleft, hanswer]
  cases heffect with
  | kept hrep => exact Or.inr ⟨Or.inl rfl, h.valid, hrep⟩
  | observed hc he hrep hv =>
    exact Or.inr ⟨Or.inr ⟨_, hc, he, rfl⟩, ledgerValid_iff.mp ((validatePolicyLedger_committed _).trans (ledgerValid_iff.mpr hv)), hrep⟩
  | decided hident hadm hd hv =>
    have hv' := ledgerValid_iff.mp ((validatePolicyLedger_committed _).trans (ledgerValid_iff.mpr hv))
    exact Or.inl ⟨_, _, ⟨hident, hd.fresh, hd.entered, hd.size, fun _ => hd.consistent hv, hd.authority⟩, hadm, hv'⟩

theorem Leaves.operations (h : r.Leaves s) : (r.step s).ledger.operations = r.ledger.operations := by
  rcases h with h | ⟨c, _, _, h⟩
  · rw [h]
  · rw [h]
    rfl

theorem Leaves.authority (h : r.Leaves s) : (r.step s).ledger.execution.isSome = r.ledger.execution.isSome := by
  rcases h with h | ⟨c, _, _, h⟩
  · rw [h]
  · rw [h, PolicyLedger.committed_execution, PolicyLedger.observed_execution, Option.isSome_map]

theorem Sound.step_keeps (h : r.Sound) (s : Submission) : Keeps r.ledger (r.step s).ledger ∧
    (r.step s).ledger.execution.isSome = r.ledger.execution.isSome ∧ (r.step s).Sound := by
  have hsize := apply_size (r.viewed s.view) h.size s.command
  have hpast : Keeps r.ledger (r.step s).ledger → ∀ l ∈ (r.step s).past, Keeps l (r.step s).ledger := by
    intro hk l hl
    rcases List.mem_cons.mp hl with rfl | hl
    · exact hk
    · exact (h.past l hl).trans hk
  rcases h.step_cases (s := s) with ⟨command, result, ⟨_, hd⟩, _, hv⟩ | ⟨hleaves, hv, _⟩
  · exact ⟨hd.keeps, hd.authority, hv, hsize, hpast hd.keeps⟩
  · have hk : Keeps r.ledger (r.step s).ledger := by
      intro key operation hop
      rw [hleaves.operations]
      exact hop
    exact ⟨hk, hleaves.authority, hv, hsize, hpast hk⟩

end

theorem Sound.run {r : Repository} (h : r.Sound) (submissions : List Submission) :
    (run Repository.step r submissions).Sound :=
  run_invariant (fun _ s h => (h.step_keeps s).2.2) h submissions

/-- What the ledgers after a state keep of it. -/
theorem Sound.run_keeps (submissions : List Submission) : ∀ {r : Repository}, r.Sound →
    (Desk.run Repository.step r submissions).ledger.execution.isSome = r.ledger.execution.isSome ∧
    ∃ later, (Desk.run Repository.step r submissions).ledger :: (Desk.run Repository.step r submissions).past =
        later ++ r.past ∧ later.length = submissions.length + 1 ∧ ∀ l ∈ later, Keeps r.ledger l := by
  induction submissions with
  | nil =>
    intro r _
    refine ⟨rfl, [r.ledger], rfl, rfl, fun l hl => ?_⟩
    rw [List.mem_singleton.mp hl]
    exact fun _ _ hop => hop
  | cons s rest ih =>
    intro r h
    obtain ⟨hk, hauth, hsound⟩ := h.step_keeps s
    obtain ⟨hauth', later, hlater, hlen, hkeeps⟩ := ih hsound
    rw [run_cons]
    refine ⟨hauth'.trans hauth, later ++ [r.ledger], ?_, by simp [hlen], fun l hl => ?_⟩
    · rw [hlater, List.append_assoc]
      rfl
    · rcases List.mem_append.mp hl with hl | hl
      · exact hk.trans (hkeeps l hl)
      · rw [List.mem_singleton.mp hl]
        exact fun _ _ hop => hop

/-- A view no older than a state keeps its operations. -/
theorem Sound.viewed_keeps {r : Repository} (h : r.Sound) (submissions : List Submission) {n : Nat}
    (hn : n ≤ submissions.length) : Keeps r.ledger ((Desk.run Repository.step r submissions).viewed n) := by
  obtain ⟨_, later, hlater, hlen, hkeeps⟩ := Sound.run_keeps submissions h
  unfold Repository.viewed
  rw [hlater, List.getElem?_append_left (by omega), List.getElem?_eq_getElem (by omega)]
  exact hkeeps _ (List.getElem_mem _)

/-- An operation that has been entered is not entered again, and another request under its id is refused. -/
theorem Sound.taken {r : Repository} (h : r.Sound) {s : Submission} {command : PolicyCommandIdentity}
    {operation : PolicyStoredOperation} (hident : s.command.identity = some command)
    (hop : r.ledger.operations.get? command.operationID = some operation) :
    r.Leaves s ∧ (operation.agrees command = false → ∃ e, (r.answer s).1 = .error e) := by
  rcases h.step_cases (s := s) with ⟨command', result, ⟨hident', hd⟩, _, _⟩ | ⟨hleaves, _, hrep⟩
  · rw [hident] at hident'
    cases hident'
    rw [hd.fresh] at hop
    cases hop
  · refine ⟨hleaves, fun hagrees => ?_⟩
    cases hanswer : (r.answer s).1 with
    | error e => exact ⟨e, rfl⟩
    | ok result =>
      exfalso
      obtain ⟨command', hident', hrec⟩ := hrep result hanswer
      rw [hident] at hident'
      cases hident'
      have hrec : Recalled s.command.call r.ledger command result := by
        rcases hrec with hrec | hrec
        · exact hrec.mono (h.viewed s.view)
        · exact hrec
      obtain ⟨operation', _, hop', hagrees', _⟩ := hrec
      rw [hop] at hop'
      cases hop'
      rw [hagrees] at hagrees'
      cases hagrees'

end Repository

/-- What every later step does about an operation that `s` committed. -/
structure CommittedOnce (s : Submission) (command : PolicyCommandIdentity) (result : PolicyMutationReply)
    (after : List Submission) (r : Repository) (t : Submission) : Prop where
  never : ∀ command' result', r.Commits t command' result' → command'.operationID ≠ command.operationID
  left : t.command.Resends s.command → r.Leaves t
  answered : t.command.Resends s.command → t.view ≤ after.length → t.command.Served r.ledger result →
    (r.answer t).1 = .ok { result with delivery := .recovered }

theorem Decided.entry {base next : PolicyLedger} {command : PolicyCommandIdentity} {result : PolicyMutationReply}
    (h : Decided base next command result) : ∃ operation, next.operations.get? command.operationID = some operation := by
  obtain ⟨_, _, _, hset⟩ := h.entered
  rw [hset]
  exact ⟨_, Table.get?_set_self _ _ _⟩

/-- A step that commits has passed the checks of its request. -/
theorem Repository.Commits.admitted {r : Repository} {s : Submission} {command : PolicyCommandIdentity}
    {result : PolicyMutationReply} (h : r.Commits s command result) (hr : r.Sound) : s.command.Admitted r.ledger := by
  rcases hr.step_cases (s := s) with ⟨_, _, _, hadm, _⟩ | ⟨hleaves, _⟩
  · exact hadm
  · obtain ⟨operation, hop⟩ := h.2.entry
    rw [hleaves.operations, h.2.fresh] at hop
    cases hop

theorem Repository.Commits.once {r : Repository} {s : Submission} {command : PolicyCommandIdentity}
    {result : PolicyMutationReply} (h : r.Commits s command result) (hr : r.Sound) (after : List Submission)
    (t : Submission) : CommittedOnce s command result after (run Repository.step (r.step s) after) t := by
  obtain ⟨_, hauth, hnext⟩ := hr.step_keeps s
  obtain ⟨hident, hd⟩ := h
  have hadm := Repository.Commits.admitted ⟨hident, hd⟩ hr
  have hauth' := (Repository.Sound.run_keeps after hnext).1.trans hauth
  have hkeeps := hnext.viewed_keeps after (Nat.zero_le _)
  have hview := fun n => hnext.viewed_keeps after (n := n)
  have hr' := hnext.run after
  obtain ⟨operation, hop⟩ := hd.entry
  have hop := hkeeps _ _ hop
  generalize run Repository.step (r.step s) after = r' at *
  refine ⟨fun command' result' h' heq => ?_, fun hre => ?_, fun hre hn hserved => ?_⟩
  · have hfresh := h'.2.fresh
    rw [heq] at hfresh
    exact absurd (hfresh.symm.trans hop) (by simp)
  · exact (hr'.taken (hre.identity.trans hident) hop).1
  · exact apply_answered (hre.identity.trans hident) hd hnext.valid (hview _ hn) hkeeps hr'.valid hr'.size
      (hre.admitted hauth' hadm) hserved

/-- After any commands: a step commits one operation under a free id or leaves the ledger, another request under a
taken id is refused, and once committed an operation is never committed again and its request is answered as then. -/
theorem operations_are_idempotent {l : PolicyLedger} (hv : validatePolicyLedger l = true)
    (hsize : l.toJson.marshal.length ≤ policyLedgerLimit) (before : List Submission) (s : Submission) :
    let r := run Repository.step ⟨l, []⟩ before
    ((∃ command result, r.Commits s command result) ∨ r.Leaves s) ∧
    (∀ command operation, s.command.identity = some command →
      r.ledger.operations.get? command.operationID = some operation → operation.agrees command = false →
      (∃ e, (r.answer s).1 = .error e) ∧ r.Leaves s) ∧
    ∀ command result, r.Commits s command result → ∀ after t,
      CommittedOnce s command result after (run Repository.step (r.step s) after) t := by
  intro r
  have hfirst : Repository.Sound ⟨l, []⟩ := ⟨ledgerValid_iff.mp hv, hsize, fun _ hl => by cases hl⟩
  have hr : r.Sound := hfirst.run before
  refine ⟨?_, fun command operation hident hop hagrees => ?_, fun command result h after t => h.once hr after t⟩
  · rcases hr.step_cases (s := s) with ⟨command, result, h, _⟩ | ⟨h, _⟩
    · exact Or.inl ⟨command, result, h⟩
    · exact Or.inr h
  · obtain ⟨hleaves, hrefused⟩ := hr.taken hident hop
    exact ⟨hrefused hagrees, hleaves⟩

/-! ## A reading that is kept -/

theorem Call.recovered_refused (call : Call) (n : Nat) {l : PolicyLedger} {command : PolicyCommandIdentity}
    {operation : PolicyStoredOperation} (hop : l.operations.get? command.operationID = some operation)
    (hagrees : operation.agrees command = false) : ∃ e, call.recovered n l command = .error e := by
  unfold recovered
  rw [hop]
  simp only
  rw [show (operation.kind == command.kind && operation.requestDigest == command.requestDigest &&
    (command.kind == .create || operation.policyID == command.policyID)) = false from hagrees]
  exact ⟨_, rfl⟩

/-- Under execution authority a lifecycle command that is refused for its operation id changes the ledger all the
same: its reading is kept. -/
theorem refused_lifecycle_keeps_its_reading {l : PolicyLedger} {e : PolicyExecutionState} (hv : validatePolicyLedger l = true)
    (hroom : l.toJson.room ≤ policyLedgerLimit) (he : l.execution = some e) {c : LifecycleCommand}
    {action : LifecycleAction} (haction : LifecycleAction.ofText c.request.action = some action)
    (hform : policyOperationIDForm c.request.operationID = true)
    (hadm : lifecycleRequestAdmitted c.id c.actor c.request action = true) (hauth : ∀ n, c.call.authorized n = true)
    (hquiet : c.call.storage = ⟨none, none⟩) (hyear : 1970 ≤ c.call.clock.year ∧ c.call.clock.year ≤ 9999)
    (hlater : e.lastTime < c.call.lifecycleNow) {operation : PolicyStoredOperation}
    (hop : l.operations.get? c.request.operationID = some operation)
    (hagrees : operation.agrees (lifecycleIdentity c.id c.actor c.request action) = false) :
    (∃ denial, (c.call.lifecycleCommand c.id c.actor c.request l).1 = .error denial) ∧
      lifecycleStep l c = (l.observed c.call.lifecycleNow).committed := by
  have htime : executionTime c.call.lifecycleNow = true := executionTime_format hyear
  have hlife : validPolicyLifecycleTime c.call.lifecycleNow = true := validPolicyLifecycleTime_format ⟨by omega, by omega⟩
  have hvalid := ledgerValid_iff.mp hv
  have hobserved := hvalid.observed he (le_of_lt hlater) htime
  have hsize := (Json.length_marshal_le l.toJson).trans hroom
  have hsize' : (l.observed c.call.lifecycleNow).toJson.marshal.length ≤ policyLedgerLimit := by
    rw [length_marshal_observed he (hvalid.executionValid he).lastTime htime]
    exact hsize
  obtain ⟨denial, huse⟩ : ∃ denial, c.call.lifecycleUse c.id c.actor c.request action (l.observed c.call.lifecycleNow)
      c.call.lifecycleNow = .error denial := by
    have hkept : (l.observed c.call.lifecycleNow).operations.get? c.request.operationID = some operation := hop
    obtain ⟨denial, hrec⟩ := c.call.recovered_refused 1 hkept hagrees
    refine ⟨denial, ?_⟩
    unfold Call.lifecycleUse
    rw [show c.call.authorize 0 = .ok () from require_eq_ok.mpr (hauth 0), hrec]
    rfl
  have hup : c.call.lifecycleAuthorityUpdate c.id c.actor c.request action l =
      .ok (true, l.observed c.call.lifecycleNow, .error denial) := by
    unfold Call.lifecycleAuthorityUpdate
    simp only [he, bind_eq_ok, require_eq_ok]
    refine ⟨(), require_eq_ok.mpr (hauth 3), (), hadm, (), by simp [hlife, le_of_lt hlater], l, ?_, (),
      require_eq_ok.mpr (hauth 4), ?_⟩
    · unfold PolicyLedger.reread
      rw [if_pos]
      simp [hsize, hv]
    · rw [huse]
      show Except.ok _ = Except.ok _
      simp only [observe, bind, Except.bind, hlater, decide_true]
  have hcommand : c.call.lifecycleCommand c.id c.actor c.request l =
      (.error denial, (l.observed c.call.lifecycleNow).committed) := by
    unfold Call.lifecycleCommand
    simp only [haction, hform, Bool.not_true, Bool.false_eq_true, if_false, hquiet]
    simp only [Storage.command, Storage.update_taken hup (ledgerValid_iff.mpr hobserved) hsize']
  unfold lifecycleStep
  rw [hcommand]
  exact ⟨⟨denial, rfl⟩, rfl⟩

namespace Sample

/-- The operation id of `withdrawal` has been used by a command of another kind. -/
def takenLedger : PolicyLedger :=
  { executionLedger with
    operations := Table.empty.set "operation-0000000000"
      ⟨"operation-0000000000", .create, policyID, digest '8', ⟨digest 'a', 64⟩⟩ }

theorem takenLedger_valid : validatePolicyLedger takenLedger = true :=
  ledgerValid_iff.mpr { executionLedger_valid with
    operationLimit := by decide
    operations := Table.all_iff.mp (by decide +kernel : takenLedger.operations.all (validPolicyOperation takenLedger) = true) }

theorem takenLedger_room : takenLedger.toJson.room ≤ policyLedgerLimit := by decide +kernel

end Sample

theorem refused_lifecycle_changes_the_ledger :
    validatePolicyLedger Sample.takenLedger = true ∧
      Sample.takenLedger.operations.has Sample.withdrawal.request.operationID = true ∧
      (∃ denial, (Sample.withdrawal.call.lifecycleCommand Sample.withdrawal.id Sample.withdrawal.actor
        Sample.withdrawal.request Sample.takenLedger).1 = .error denial) ∧
      lifecycleStep Sample.takenLedger Sample.withdrawal ≠ Sample.takenLedger := by
  obtain ⟨hdenied, hstep⟩ := refused_lifecycle_keeps_its_reading Sample.takenLedger_valid Sample.takenLedger_room rfl
    (c := Sample.withdrawal) rfl (by decide) (by decide +kernel) (fun _ => rfl) rfl (by decide) (by decide +kernel)
    (Table.get?_set_self _ _ _) rfl
  refine ⟨Sample.takenLedger_valid, rfl, hdenied, fun h => ?_⟩
  have hlast := congrArg (fun l => l.execution.map PolicyExecutionState.lastTime) (hstep.symm.trans h)
  exact absurd hlast (by decide +kernel)

theorem operations_are_idempotent_sample :
    (∃ command, (RepositoryCommand.lifecycle Sample.withdrawal).identity = some command) ∧
      ((∃ command result, (⟨Sample.takenLedger, []⟩ : Repository).Commits ⟨.lifecycle Sample.withdrawal, 0⟩ command result) ∨
        (⟨Sample.takenLedger, []⟩ : Repository).Leaves ⟨.lifecycle Sample.withdrawal, 0⟩) :=
  have hsize := (Json.length_marshal_le Sample.takenLedger.toJson).trans Sample.takenLedger_room
  ⟨⟨_, rfl⟩, (operations_are_idempotent Sample.takenLedger_valid hsize [] ⟨.lifecycle Sample.withdrawal, 0⟩).1⟩

end Desk
