import Desk.Anchor.Anchor

/-!
# Failures

What a policy operation answers in place of a reply. `GoError` keeps of any
other Go error only what the code asks of it.
-/

namespace Desk

structure PolicyFailure where
  status : Nat
  code : String
  message : String
  currentRevision : String
  currentPolicyRevision : String
  uncertain : Bool
deriving DecidableEq

inductive GoError where
  | refusal (f : PolicyFailure)
  | anchor (e : PolicyAuthorityAnchorError)
  | other
deriving DecidableEq

def policyRefusal (status : Nat) (code message : String) : PolicyFailure where
  status := status
  code := code
  message := message
  currentRevision := ""
  currentPolicyRevision := ""
  uncertain := false

def policyUncertainStorage : PolicyFailure :=
  { policyRefusal 503 "storage-unavailable"
      "Policy storage could not confirm this operation. Keep its operation ID and check recovery before starting another write."
    with uncertain := true }

def policyBeforeCommitFailure : GoError → PolicyFailure
  | .refusal f => f
  | _ => policyRefusal 503 "storage-unavailable"
      "Policy content could not be retained. No policy change was committed. Check storage before retrying."

def policyAuthorityStoreRefusal : GoError → PolicyFailure
  | .anchor e =>
    match e.code with
    | .pending | .uncertain => policyRefusal 503 "authority-unresolved"
        "Policy authority cannot confirm its current write state. Use read-only history recovery before another write."
    | .busy => policyRefusal 503 "storage-busy"
        "Policy authority storage is busy. Preserve the original operation for recovery."
    | .mismatch | .identity | .integrity => policyRefusal 409 "authority-conflict"
        "The retained Policy ledger does not establish the bound current authority. Read-only history remains available."
    | _ => policyRefusal 503 "authority-unavailable"
        "Current Policy authority storage is unavailable. Preserve the operation and use read-only recovery."
  | _ => policyRefusal 503 "authority-unavailable"
      "Current Policy authority storage is unavailable. Preserve the operation and use read-only recovery."

/-- A head that cannot be verified does not say whether the operation committed. -/
def policyAuthorityStoreFailure (err : GoError) : PolicyFailure :=
  { policyAuthorityStoreRefusal err with uncertain := true }

end Desk
