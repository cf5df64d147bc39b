import Desk.Ledger.Failure
import Desk.Execution.Validate

/-!
# Transactions of an anchored ledger

`anchoredTransaction` reads the ledger under its lock, lets the anchor admit it,
runs the caller's function and writes the result through `Advance`. Reading
bytes back into a ledger is a parameter, `decode`.
-/

namespace Desk

/-- What a transaction meets before and after the caller's function. -/
structure TransactionCall where
  cancelled : Bool
  opens : Bool
  lockOpens : Bool
  locks : Bool
  readable : Bool
  current : CurrentCall
  cancelledBeforeWrite : Bool
  conditions : AdvanceConditions
  ledgerFate : WriteFate

/-- A transaction's function: whether it asks for a commit, or its error, and the ledger it leaves. -/
abbrev LedgerUse : Type := PolicyLedger → Except GoError Bool × PolicyLedger

/-- The bytes to write once `use` has run on `ledger`, none where nothing is to be written. -/
def nextLedger (write cancelled : Bool) (use : LedgerUse) (ledger : PolicyLedger) : Except GoError (Option (List UInt8)) :=
  match use ledger with
  | (.error e, _) => .error (if write then .refusal (policyBeforeCommitFailure e) else e)
  | (.ok changed, next) =>
    if !write || !changed then .ok none
    else if !validatePolicyLedger next then .error (.refusal (policyBeforeCommitFailure .other))
    else
      let raw := next.toJson.marshal
      if raw.length > policyLedgerLimit then
        .error (.refusal (policyRefusal 409 "storage-capacity" "Policy storage has reached its supported capacity."))
      else if cancelled then .error (.refusal (policyBeforeCommitFailure .other))
      else .ok (some raw)

section
variable {D : Type} [DecidableEq D] (scheme : DigestScheme D) (identity : PolicyAuthorityAnchorIdentity)

def Returned.map {ε δ : Type} (f : ε → δ) : Returned ε → Returned δ
  | .nil => .nil
  | .error e => .error (f e)
  | .panicked => .panicked
  | .stopped => .stopped

/-- The function passed to `WithCurrent`. -/
def anchoredUse (call : TransactionCall) (prepared : Except GoError (Option (List UInt8))) (held : AnchorHeld D)
    (w : AnchorWorld D) : Returned GoError × AnchorHeld D × AnchorWorld D :=
  match prepared with
  | .error e => (.error e, held, w)
  | .ok none => (.nil, held, w)
  | .ok (some next) =>
    let (r, held, w) := advance scheme ⟨call.conditions, next, some ⟨call.ledgerFate, false⟩⟩ held w
    (r.map .anchor, held, w)

/-- The function's own error is answered only where `WithCurrent` says that it refused. -/
def anchoredReply (prepared : Except GoError (Option (List UInt8))) :
    Returned PolicyAuthorityAnchorError × AnchorWorld D → Returned GoError × AnchorWorld D
  | (.nil, w) => (.nil, w)
  | (.error e, w) =>
    match prepared, e.code with
    | .error precommit, .callbackRefused => (.error precommit, w)
    | _, _ => (.error (.refusal (policyAuthorityStoreFailure (.anchor e))), w)
  | (.panicked, w) => (.panicked, w)
  | (.stopped, w) => (.stopped, w)

def anchoredTransaction (decode : List UInt8 → Option PolicyLedger) (write : Bool) (use : LedgerUse)
    (call : TransactionCall) (w : AnchorWorld D) : Returned GoError × AnchorWorld D :=
  let refused := fun e => (.error (.refusal (policyAuthorityStoreFailure e)), w)
  if call.cancelled then refused .other
  else if !call.opens then refused .other
  else if !call.lockOpens then refused .other
  else if !call.locks then refused (.anchor (policyAuthorityAnchorRefusal .busy))
  else if !call.readable then refused .other
  else match decode w.disk.ledger with
    | none =>
      (.error (.refusal { policyRefusal 409 "storage-integrity" "Retained Policy storage is inconsistent." with
        uncertain := true }), w)
    | some ledger =>
      let prepared := nextLedger write call.cancelledBeforeWrite use ledger
      anchoredReply prepared
        (withCurrent scheme identity call.current w.disk.ledger (anchoredUse scheme call prepared) w)

end

end Desk
