import Desk.Execution.PreserveSound
import Desk.Service.Operations

/-!
# Everything a command can do

A command commits the operation it decided, or it leaves the ledger and at most
repeats an answer that was retained.
-/

namespace Desk

/-! ## Recalled answers -/

/-- Whether an operation was entered for this request. -/
def PolicyStoredOperation.agrees (operation : PolicyStoredOperation) (command : PolicyCommandIdentity) : Bool :=
  operation.kind == command.kind && operation.requestDigest == command.requestDigest &&
    (command.kind == .create || operation.policyID == command.policyID)

/-- `result` is what `call` reads back of the answer that `l` keeps for the operation of `command`. -/
def Recalled (call : Call) (l : PolicyLedger) (command : PolicyCommandIdentity) (result : PolicyMutationReply) : Prop :=
  ∃ operation stored, l.operations.get? command.operationID = some operation ∧ operation.agrees command = true ∧
    call.retainedReply operation.result = .ok stored ∧ result = { stored with delivery := .recovered }

theorem Call.recovered_some {call : Call} {n : Nat} {l : PolicyLedger} {command : PolicyCommandIdentity}
    {result : PolicyMutationReply} (h : call.recovered n l command = .ok (some result)) : Recalled call l command result := by
  unfold recovered at h
  split at h
  · cases h
  · rename_i operation hop
    simp only [bind_eq_ok, require_eq_ok] at h
    obtain ⟨_, hagrees, stored, hstored, _, _, _, _, h⟩ := h
    cases h
    exact ⟨operation, stored, hop, hagrees, hstored, rfl⟩

theorem Recalled.mono {call : Call} {l l' : PolicyLedger} {command : PolicyCommandIdentity} {result : PolicyMutationReply}
    (h : Recalled call l command result)
    (hkept : ∀ key operation, l.operations.get? key = some operation → l'.operations.get? key = some operation) :
    Recalled call l' command result := by
  obtain ⟨operation, stored, hop, rest⟩ := h
  exact ⟨operation, stored, hkept _ _ hop, rest⟩

/-! ## What a command does -/

def RepositoryCommand.call : RepositoryCommand → Call
  | policy call _ _ => call.toCall
  | source call _ _ _ _ _ => call
  | sourceStatus call _ _ _ _ => call.toCall
  | lifecycle c => c.call

/-- What a command checks of its request before anything else, and under execution authority before the clock. -/
def RepositoryCommand.Admitted (c : RepositoryCommand) (l : PolicyLedger) : Prop :=
  match c with
  | policy _ q _ => policyOperationIDForm q.operationID = true
  | source _ _ _ q _ _ => policyOperationIDForm q.operationID = true
  | sourceStatus _ _ _ q _ => policyOperationIDForm q.operationID = true ∧ blank q.rationale = false ∧ len q.rationale ≤ 8192
  | lifecycle c => policyOperationIDForm c.request.operationID = true ∧
      (l.execution.isSome = true → ∀ action, LifecycleAction.ofText c.request.action = some action →
        lifecycleRequestAdmitted c.id c.actor c.request action = true)

/-- An answer of a command that commits nothing is an error or recalled. -/
def Repeats (c : RepositoryCommand) (seen l : PolicyLedger) (r : Except GoError PolicyMutationReply) : Prop :=
  ∀ result, r = .ok result → ∃ command, c.identity = some command ∧
    (Recalled c.call seen command result ∨ Recalled c.call l command result)

/-- Every ledger and answer a command can leave. -/
inductive CommandEffect (c : RepositoryCommand) (seen l : PolicyLedger) (r : Except GoError PolicyMutationReply) :
    PolicyLedger → Prop where
  | kept : Repeats c seen l r → CommandEffect c seen l r l
  | observed {command : LifecycleCommand} : c = .lifecycle command → l.execution.isSome = true → Repeats c seen l r →
      LedgerValid (l.observed command.call.lifecycleNow) →
      CommandEffect c seen l r (l.observed command.call.lifecycleNow).committed
  | decided {next : PolicyLedger} {command : PolicyCommandIdentity} {result : PolicyMutationReply} :
      c.identity = some command → c.Admitted l → Decided l next command result → LedgerValid next →
      (r = .ok result ∨ ∃ e, r = .error e) → CommandEffect c seen l r next.committed

theorem Repeats.error {c : RepositoryCommand} {seen l : PolicyLedger} (e : GoError) : Repeats c seen l (.error e) := by
  intro result h
  cases h

/-- A transaction that recalls or decides, whatever the storage does around it. -/
theorem CommandEffect.update {c : RepositoryCommand} {seen l l' : PolicyLedger} {s : Storage}
    {use : Transaction PolicyMutationReply} {r : Except GoError PolicyMutationReply} {command : PolicyCommandIdentity}
    (hident : c.identity = some command) (hadm : c.Admitted l) (h : s.update use l = (r, l'))
    (huse : ∀ changed next result, use l = .ok (changed, next, result) →
      changed = false ∧ Recalled c.call l command result ∨ changed = true ∧ Decided l next command result) :
    CommandEffect c seen l r l' := by
  rcases Storage.update_cases h with ⟨e, rfl, rfl⟩ | ⟨next, a, hok, rfl, rfl⟩ | ⟨next, a, hok, hv, rfl, hr⟩
  · exact .kept (.error e)
  · rcases huse _ _ _ hok with ⟨_, hrec⟩ | ⟨hc, _⟩
    · refine .kept fun result hres => ?_
      cases hres
      exact ⟨command, hident, Or.inr hrec⟩
    · cases hc
  · rcases huse _ _ _ hok with ⟨hc, _⟩ | ⟨_, hd⟩
    · cases hc
    · exact .decided hident hadm hd (ledgerValid_iff.mp hv) hr

theorem policy_effect {seen l : PolicyLedger} (hv : LedgerValid l) (call : PolicyCall) (c : PolicyRequest)
    (actor : PolicyActor) : CommandEffect (.policy call c actor) seen l (call.execute c actor seen l).1
      (call.execute c actor seen l).2 := by
  unfold PolicyCall.execute
  simp only
  split
  · exact .kept (.error _)
  · rename_i hadm
    simp only [bind_eq_ok, require_eq_ok] at hadm
    obtain ⟨_, _, hform⟩ := hadm
    split
    · exact .kept (.error _)
    · rename_i result hview
      refine .kept fun result' hres => ?_
      cases hres
      refine ⟨_, rfl, Or.inl ?_⟩
      obtain ⟨_, hrec⟩ : ∃ n, call.recovered n seen (c.identity actor) = .ok (some result) := by
        simp only [Storage.view] at hview
        split at hview
        · cases hview
        · unfold Storage.answer at hview
          split at hview
          · cases hview
          · simp only [PolicyCall.inspect, bind_eq_ok] at hview
            obtain ⟨_, _, recovered, hrec, hview⟩ := hview
            cases recovered with
            | some r => cases hview; exact ⟨_, hrec⟩
            | none =>
              simp only [bind_eq_ok] at hview
              obtain ⟨_, _, hview⟩ := hview
              cases hview
      exact call.toCall.recovered_some hrec
    · split
      · exact .kept (.error _)
      · refine .update rfl hform rfl fun changed next result hup => ?_
        rcases call.toCall.policyUpdate_eq_ok hup with ⟨hc, _, hrec⟩ | ⟨hc, hfresh, _, _, _, _, hd⟩
        · exact Or.inl ⟨hc, call.toCall.recovered_some hrec⟩
        · exact Or.inr ⟨hc, hd.decided hv hfresh⟩

theorem source_effect {seen l : PolicyLedger} (hv : LedgerValid l) (call : Call) (id : String) (actor : PolicyActor)
    (q : PolicySourceSyncRequest) (authority : String) (supported : Bool) :
    CommandEffect (.source call id actor q authority supported) seen l
      (call.sourceCommand id actor q authority supported l).1 (call.sourceCommand id actor q authority supported l).2 := by
  unfold Call.sourceCommand
  simp only
  split
  · exact .kept (.error _)
  · rename_i action haction
    have hident : (RepositoryCommand.source call id actor q authority supported).identity =
        some (sourceIdentity id actor q action) := by
      simp only [RepositoryCommand.identity, haction, Option.map_some]
    split
    · exact .kept (.error _)
    · rename_i hform
      refine .update hident (by simpa [RepositoryCommand.Admitted] using hform) rfl fun changed next result hup => ?_
      rcases call.sourceUpdate_eq_ok hup with ⟨hc, _, hrec⟩ | ⟨hc, hfresh, _, _, _, hd⟩
      · exact Or.inl ⟨hc, call.recovered_some hrec⟩
      · exact Or.inr ⟨hc, hd.decided hv hfresh⟩

theorem sourceStatus_effect {seen l : PolicyLedger} (hv : LedgerValid l) (call : PolicyCall) (id : String)
    (actor : PolicyActor) (q : PolicySourceStatusRequest) (authority : String) :
    CommandEffect (.sourceStatus call id actor q authority) seen l
      (call.sourceStatusCommand id actor q authority seen l).1 (call.sourceStatusCommand id actor q authority seen l).2 := by
  unfold PolicyCall.sourceStatusCommand
  simp only
  split
  · exact .kept (.error _)
  · rename_i kind hkind
    have hident : (RepositoryCommand.sourceStatus call id actor q authority).identity =
        some (sourceStatusIdentity id actor q kind) := by
      simp only [RepositoryCommand.identity, hkind, Option.map_some]
    split
    · exact .kept (.error _)
    · rename_i hform
      split
      · exact .kept (.error _)
      · rename_i result hview
        refine .kept fun result' hres => ?_
        cases hres
        refine ⟨_, hident, Or.inl ?_⟩
        obtain ⟨_, hrec⟩ : ∃ n, call.recovered n seen (sourceStatusIdentity id actor q kind) = .ok (some result) := by
          simp only [Storage.view] at hview
          split at hview
          · cases hview
          · unfold Storage.answer at hview
            split at hview
            · cases hview
            · simp only [bind_eq_ok] at hview
              obtain ⟨_, _, hrec⟩ := hview
              exact ⟨_, hrec⟩
        exact call.toCall.recovered_some hrec
      · split
        · exact .kept (.error _)
        · refine .update hident (by simpa [RepositoryCommand.Admitted, and_assoc] using hform) rfl fun changed next result hup => ?_
          rcases call.toCall.sourceStatusUpdate_cases hup with ⟨hc, _, hrec⟩ | ⟨hc, hfresh, _, _, _, _, hd⟩
          · exact Or.inl ⟨hc, call.toCall.recovered_some hrec⟩
          · exact Or.inr ⟨hc, hd.decided hv hfresh⟩

/-- A use recalls the answer or decides. -/
theorem Call.lifecycleUse_cases {call : Call} {id : String} {actor : PolicyActor} {q : PolicyLifecycleRequest}
    {action : LifecycleAction} {l next : PolicyLedger} {reading : String} {changed : Bool} {result : PolicyMutationReply}
    (h : call.lifecycleUse id actor q action l reading = .ok (changed, next, result)) :
    changed = false ∧ next = l ∧ Recalled call l (lifecycleIdentity id actor q action) result ∨
      changed = true ∧ Decided l next (lifecycleIdentity id actor q action) result := by
  simp only [lifecycleUse, bind_eq_ok] at h
  obtain ⟨_, _, recovered, hrec, h⟩ := h
  cases recovered with
  | some r => cases h; exact Or.inl ⟨rfl, rfl, call.recovered_some hrec⟩
  | none =>
    have hchanged := (call.lifecycleDecision_eq_ok h).1
    exact Or.inr ⟨hchanged, call.lifecycleDecision_decided (call.recovered_none hrec) h⟩

/-- Everything the transaction of a lifecycle command comes to. -/
theorem Call.lifecycleAuthorityUpdate_cases {call : Call} {id : String} {actor : PolicyActor}
    {q : PolicyLifecycleRequest} {action : LifecycleAction} {l next : PolicyLedger} {changed : Bool}
    {answer : Except GoError PolicyMutationReply}
    (h : call.lifecycleAuthorityUpdate id actor q action l = .ok (changed, next, answer)) :
    ((changed = false ∨ l.execution.isSome = true ∧ next = l.observed call.lifecycleNow) ∧
        ∀ result, answer = .ok result → Recalled call l (lifecycleIdentity id actor q action) result) ∨
      changed = true ∧ ∃ result, answer = .ok result ∧ Decided l next (lifecycleIdentity id actor q action) result := by
  unfold lifecycleAuthorityUpdate at h
  cases he : l.execution with
  | none =>
    simp only [he, bind_eq_ok] at h
    obtain ⟨⟨changed', next', result⟩, hu, h⟩ := h
    cases h
    rcases lifecycleUse_cases hu with ⟨hc, _, hrec⟩ | ⟨hc, hd⟩
    · exact Or.inl ⟨Or.inl hc, fun result' hres => by cases hres; exact hrec⟩
    · exact Or.inr ⟨hc, result, rfl, hd⟩
  | some e =>
    simp only [he, bind_eq_ok] at h
    obtain ⟨_, _, _, _, _, _, work, hw, _, _, h⟩ := h
    cases PolicyLedger.reread_eq_ok hw
    have hobserve := Except.ok.inj h
    rcases observe_cases hobserve with ⟨rfl, denial, rfl⟩ | ⟨used, hu⟩
    · exact Or.inl ⟨Or.inr ⟨rfl, rfl⟩, fun result hres => by cases hres⟩
    · have hused : changed = (decide (e.lastTime < call.lifecycleNow) || used) := by
        rw [hu] at hobserve
        exact (Prod.mk.inj hobserve).1.symm
      simp only [bind_eq_ok] at hu
      obtain ⟨⟨changed', next', result⟩, hu, hnext⟩ := hu
      cases hnext
      rcases lifecycleUse_cases hu with ⟨_, rfl, hrec⟩ | ⟨rfl, hd⟩
      · exact Or.inl ⟨Or.inr ⟨rfl, rfl⟩, fun result' hres => by cases hres; exact hrec⟩
      · rw [Bool.or_true] at hused
        exact Or.inr ⟨hused, result, rfl, hd.fresh, hd.entered, hd.size, hd.consistent, by simpa [he] using hd.authority⟩

theorem Call.lifecycleAuthorityUpdate_admitted {call : Call} {id : String} {actor : PolicyActor}
    {q : PolicyLifecycleRequest} {action : LifecycleAction} {l next : PolicyLedger} {changed : Bool}
    {answer : Except GoError PolicyMutationReply} (he : l.execution.isSome = true)
    (h : call.lifecycleAuthorityUpdate id actor q action l = .ok (changed, next, answer)) :
    lifecycleRequestAdmitted id actor q action = true := by
  obtain ⟨e, he⟩ := Option.isSome_iff_exists.mp he
  unfold lifecycleAuthorityUpdate at h
  simp only [he, bind_eq_ok, require_eq_ok] at h
  obtain ⟨_, _, _, hadm, _⟩ := h
  exact hadm

theorem lifecycle_effect {seen l : PolicyLedger} (c : LifecycleCommand) :
    CommandEffect (.lifecycle c) seen l (c.call.lifecycleCommand c.id c.actor c.request l).1
      (c.call.lifecycleCommand c.id c.actor c.request l).2 := by
  unfold Call.lifecycleCommand
  split
  · exact .kept (.error _)
  · rename_i action haction
    have hident : (RepositoryCommand.lifecycle c).identity = some (lifecycleIdentity c.id c.actor c.request action) := by
      simp only [RepositoryCommand.identity, haction, Option.map_some]
    have repeats : ∀ {r : Except GoError PolicyMutationReply},
        (∀ result, r = .ok result → Recalled c.call l (lifecycleIdentity c.id c.actor c.request action) result) →
        Repeats (.lifecycle c) seen l r := fun h result hres => ⟨_, hident, Or.inr (h result hres)⟩
    split
    · exact .kept (.error _)
    · rename_i hform
      cases hu : c.call.storage.command (c.call.lifecycleAuthorityUpdate c.id c.actor c.request action) l with
      | mk r l' =>
        rcases Storage.command_cases hu with ⟨rfl, ⟨e, rfl⟩ | ⟨next, hok⟩⟩ | ⟨next, answer, hok, hv, rfl, hr⟩
        · exact .kept (.error e)
        · rcases Call.lifecycleAuthorityUpdate_cases hok with ⟨_, hrec⟩ | ⟨hc, _⟩
          · exact .kept (repeats hrec)
          · cases hc
        · rcases Call.lifecycleAuthorityUpdate_cases hok with ⟨hc | ⟨he, rfl⟩, hrec⟩ | ⟨_, result, rfl, hd⟩
          · cases hc
          · refine .observed rfl he (repeats fun result hres => hrec result ?_) (ledgerValid_iff.mp hv)
            rcases hr with rfl | ⟨e, rfl⟩
            · exact hres
            · cases hres
          · refine .decided hident ⟨by simpa using hform, fun he action' haction' => ?_⟩ hd (ledgerValid_iff.mp hv) hr
            rw [haction] at haction'
            cases haction'
            exact c.call.lifecycleAuthorityUpdate_admitted he hok

end Desk
