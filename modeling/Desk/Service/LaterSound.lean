import Desk.Execution.HighWaterSound
import Desk.Service.IdempotentSound

/-!
# Source status commands are kept

What a source status command asks to commit passes the validators of sources and
authorities, and its answer is recovered in every ledger that comes later.
-/

namespace Desk

/-! ## Later ledgers -/

/-- `l'` comes of `l` by commands of the repository and steps of the execution service. -/
inductive Later (l : PolicyLedger) : PolicyLedger → Prop where
  | refl : Later l l
  | command {l' : PolicyLedger} (seen : PolicyLedger) (c : RepositoryCommand) : Later l l' → Later l (c.apply seen l').2
  | execution {l' : PolicyLedger} (step : ExecutionStep) : Later l l' → Later l (executionStep l' step)

theorem CommandEffect.valid {c : RepositoryCommand} {seen l l' : PolicyLedger} {r : Except GoError PolicyMutationReply}
    (h : CommandEffect c seen l r l') (hv : LedgerValid l) : LedgerValid l' := by
  have hcommitted : ∀ next : PolicyLedger, LedgerValid next → LedgerValid next.committed := fun next hn =>
    ledgerValid_iff.mp ((validatePolicyLedger_committed next).trans (ledgerValid_iff.mpr hn))
  cases h with
  | kept => exact hv
  | observed _ _ _ hn => exact hcommitted _ hn
  | decided _ _ _ hn => exact hcommitted _ hn

theorem CommandEffect.keeps {c : RepositoryCommand} {seen l l' : PolicyLedger} {r : Except GoError PolicyMutationReply}
    (h : CommandEffect c seen l r l') : Keeps l l' := by
  cases h with
  | kept => exact fun _ _ hop => hop
  | observed => exact fun _ _ hop => hop
  | decided _ _ hd => exact hd.keeps

theorem executionStep_keeps (l : PolicyLedger) (step : ExecutionStep) : Keeps l (executionStep l step) := by
  have heffect := executionStep_effect l step
  generalize executionStep l step = l' at heffect
  cases heffect with
  | unchanged => exact fun _ _ hop => hop
  | initialized _ hnext => subst hnext; exact fun _ _ hop => hop
  | observed => exact fun _ _ hop => hop
  | changed => exact fun _ _ hop => hop

/-- A later ledger is valid, within the limit where the first was, and keeps its operations. -/
theorem Later.keeps {l l' : PolicyLedger} (h : Later l l') (hv : LedgerValid l) : LedgerValid l' ∧ Keeps l l' := by
  induction h with
  | refl => exact ⟨hv, fun _ _ hop => hop⟩
  | command seen c _ ih =>
    have heffect := apply_effect seen ih.1 c
    exact ⟨heffect.valid ih.1, ih.2.trans heffect.keeps⟩
  | execution step _ ih =>
    exact ⟨ledgerValid_iff.mp ((executionStep_effect _ step).valid (ledgerValid_iff.mpr ih.1)),
      ih.2.trans (executionStep_keeps _ step)⟩

/-! ## Kept and recovered -/

/-- What a source status command asks to commit passes the validators of sources and authorities, and so does its
answer its own. Once it is committed, the same request is answered as recovered on whatever comes later. -/
theorem source_status_commands_are_kept {call : PolicyCall} {id : String} {actor : PolicyActor}
    {q : PolicySourceStatusRequest} {kind : AuthorityKind} {authority : String} {ledger next : PolicyLedger}
    {result : PolicyMutationReply} (hv : validatePolicyLedger ledger = true) (hq : StatusAdmitted q kind)
    (ho : Outside call.toCall actor ledger)
    (h : call.sourceStatusUpdate id actor q kind authority ledger = .ok (true, next, result)) :
    validatePolicySourceAuthorities next = true ∧ validatePolicySources next = true ∧
      validPolicySourceAuthorityResult result = true ∧
      (validatePolicyLedger next = true → ∀ l, Later next.committed l → ∀ call' authority',
        (RepositoryCommand.sourceStatus call' id actor q authority').Served l result →
          (∀ n, call'.recovered n l (sourceStatusIdentity id actor q kind) = .ok (some { result with delivery := .recovered })) ∧
          ∀ l', Later l l' →
            (call'.sourceStatusCommand id actor q authority' l l').1 = .ok { result with delivery := .recovered }) := by
  have hledger := ledgerValid_iff.mp hv
  obtain ⟨hfresh, record, token, c, stream, hd⟩ := call.toCall.sourceStatusUpdate_eq_ok h
  refine ⟨hd.authorities_valid hledger hq ho, hd.sources_valid hledger hq ho, hd.result_valid hledger hq ho,
    fun hnext l hlater call' authority' hserved => ?_⟩
  have hdecided := hd.decided hledger hfresh
  have hcommitted := ledgerValid_iff.mp ((validatePolicyLedger_committed next).trans hnext)
  have hident : (RepositoryCommand.sourceStatus call' id actor q authority').identity =
      some (sourceStatusIdentity id actor q kind) := by
    simp only [RepositoryCommand.identity, hq.action, Option.map_some]
  have hkeeps : Keeps next l := (hlater.keeps hcommitted).2
  refine ⟨fun n => hdecided.recovered (ledgerValid_iff.mp hnext) hkeeps hserved.1 n, fun l' hl' => ?_⟩
  exact sourceStatus_answered hident hdecided (ledgerValid_iff.mp hnext) hkeeps ⟨hq.operation, hq.reviewed, hq.bounded⟩
    hserved

/-! ## A policy handed to an external owner -/

theorem Call.put_ok {call : Call} {v : Json} (hroom : v.room ≤ retainedArtifactByteLimit)
    (hstores : call.stores v.marshal = true) : call.put v.marshal = .ok (artifactReference v.marshal) := by
  unfold Call.put
  rw [if_pos ⟨(Json.length_marshal_le v).trans hroom, hstores⟩]

namespace Sample

def policyCall : PolicyCall :=
  { call with reading := ⟨none, none⟩, validateVersion := none }

def ownership : PolicySourceStatusRequest where
  operationID := "operation-0000000001"
  baseRevision := policyEffectiveRevision record none
  baseSourceRevision := policySourceRevision none
  baseAuthorityRevision := policyAuthorityRevision none
  rationale := "Handed over."
  action := "set-ownership"
  bindingID := ""
  fallbackStatus := ""
  managementMode := "externally-managed"
  observationID := ""
  configurationID := ""
  draft := none

theorem getLast?_drawn {s kind : String} (h : s = kind ++ "_" ++ token 'e') : s.toList.getLast? = some 'e' := by
  rw [h]
  simp [token, List.getLast?_append]

theorem policies_of_ledger {id : String} {r : PolicyStoredRecord} (h : ledger.policies.get? id = some r) :
    id = policyID ∧ r = record := by
  have hset : (Table.empty.set policyID record).get? id = some r := h
  rw [Table.get?_set] at hset
  split at hset
  · rename_i hid
    exact ⟨hid, (Option.some.inj hset).symm⟩
  · simp at hset

/-- The drawn token is in no identifier of the published policy. -/
theorem drawn_fresh : (⟨token 'e', by decide⟩ : Token).Fresh ledger where
  policy := by
    intro id r hr kind heq
    rw [(policies_of_ledger hr).1] at heq
    exact absurd (getLast?_drawn heq) (by decide)
  revision := by
    intro id r hr v hv kind heq
    rw [(policies_of_ledger hr).2] at hv
    rw [List.mem_singleton.mp hv] at heq
    exact absurd (getLast?_drawn heq) (by decide)
  review := by
    intro id r hr v hv kind heq
    rw [(policies_of_ledger hr).2] at hv
    rw [List.mem_singleton.mp hv] at heq
    exact absurd (getLast?_drawn heq) (by decide)
  publication := by
    intro id r hr v hv kind heq
    rw [(policies_of_ledger hr).2] at hv
    rw [List.mem_singleton.mp hv] at heq
    exact absurd (getLast?_drawn heq) (by decide)
  authority := fun _ _ h => by cases h
  configuration := fun _ _ h => by cases h
  external := fun _ _ h => by cases h

def handedEvent : PolicySourceAuthorityEvent :=
  { statusEvent record none .setOwnership ownership actor ("authority_" ++ token 'e') "2026-02-01T00:00:00Z" with
    managementMode := some .externallyManaged }

/-- The answer to `ownership`, over the digests in it. -/
def handedReply (revision policyRevision sourceRevision requestDigest : String) : PolicyMutationReply :=
  { (default : PolicyMutationReply) with
    outcomeKind := "source-authority", delivery := .committed, policyID := policyID, policyRevision := policyRevision
    sourceStatus := some { policySourceStatusView record none (some ⟨1, [handedEvent]⟩) "" with
      revision := revision, policyRevision := policyRevision, sourceRevision := sourceRevision }
    receipt := { (default : PolicyOperationReceipt) with
      operationID := ownership.operationID, kind := .authority .setOwnership, policyID := policyID
      requestDigest := requestDigest, at_ := handedEvent.at_, actor := actor, revision := policyRevision
      candidateDigest := digest 'a', authorityRevision := revision, authorityEventID := handedEvent.id } }

theorem handedReply_room {a b c d : String} (ha : len a = 64) (hb : len b = 64) (hc : len c = 64) (hd : len d = 64) :
    (handedReply a b c d).toJson.room ≤ retainedArtifactByteLimit := by
  have hane : a ≠ "" := by rintro rfl; cases ha
  have hbne : b ≠ "" := by rintro rfl; cases hb
  unfold PolicyMutationReply.toJson
  rw [if_pos (show (handedReply a b c d).policy = default from rfl)]
  simp only [handedReply, PolicySourceStatusReply.toJson, PolicyOperationReceipt.toJson, Json.room, Json.optMember,
    Json.roomMembers, Json.roomMembers_append, Json.roomMembers_optText, Json.optRoom_of_ne hane, Json.optRoom_of_ne hbne,
    ha, hb, hc, hd]
  decide +kernel

def handedResult : PolicyMutationReply :=
  handedReply (policyAuthorityRevision (some ⟨1, [handedEvent]⟩)) (policyEffectiveRevision record (some ⟨1, [handedEvent]⟩))
    (policySourceRevision none) (sourceStatusIdentity policyID actor ownership .setOwnership).requestDigest

def handed : PolicyLedger :=
  { ledger with
    sourceAuthorities := Table.empty.set policyID ⟨1, [handedEvent]⟩
    operations := Table.empty.set ownership.operationID
      ⟨ownership.operationID, .authority .setOwnership, policyID,
        (sourceStatusIdentity policyID actor ownership .setOwnership).requestDigest,
        artifactReference handedResult.toJson.marshal⟩ }

theorem handed_room : handedResult.toJson.room ≤ retainedArtifactByteLimit := by
  refine handedReply_room (len_digestOf _) ?_ (len_digestOf _) (len_digestOf _)
  unfold policyEffectiveRevision
  simp only
  split <;> exact len_digestOf _

theorem handed_over : policyCall.sourceStatusUpdate policyID actor ownership .setOwnership "" ledger =
    .ok (true, handed, handedResult) := by
  simp only [Call.sourceStatusUpdate, bind_eq_ok]
  refine ⟨(), rfl, none, rfl, ?_⟩
  simp only [Call.sourceStatusDecision, bind_eq_ok, found_eq_ok, require_eq_ok]
  refine ⟨record, rfl, (), ?_, (), by decide, _, rfl, ⟨ledger, record, none, handedEvent, "", "", ""⟩, ?_, _,
    Call.put_ok handed_room rfl, (), rfl, rfl⟩
  · rw [show ledger.sourceAuthorities.get? policyID = none from rfl, show ledger.sources.get? policyID = none from rfl]
    simp [ownership]
  · simp only [Call.statusChange, statusOwnership, bind_eq_ok, found_eq_ok, require_eq_ok]
    exact ⟨_, rfl, (), by decide, rfl⟩

end Sample

theorem source_status_commands_are_kept_sample :
    Sample.policyCall.sourceStatusUpdate Sample.policyID Sample.actor Sample.ownership .setOwnership "" Sample.ledger =
        .ok (true, Sample.handed, Sample.handedResult) ∧
      validatePolicySourceAuthorities Sample.handed = true ∧ validatePolicySources Sample.handed = true ∧
      validPolicySourceAuthorityResult Sample.handedResult = true :=
  have h := source_status_commands_are_kept Sample.ledger_valid ⟨rfl, by decide, by decide, by decide⟩
    ⟨by decide, ⟨by decide, by decide⟩, fun _ tok htok => by cases htok; exact Sample.drawn_fresh⟩ Sample.handed_over
  ⟨Sample.handed_over, h.1, h.2.1, h.2.2.1⟩

end Desk
