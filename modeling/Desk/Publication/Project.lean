import Desk.Lib.Run
import Desk.Publication.Dialect

/-!
# A project over time

Every transaction of the ledger, one after another: each holds the ledger's lock
to its end, and may stop before any of its saves. Between two, anyone may put
another public lock in the project.
-/

namespace Desk

namespace Publication

variable (e : Tools)

inductive Act where
  | outside (lock : Option Bytes)
  | lock (files : Files) (ran : RuntimeLock) (token : String) (refs : Table RetainedArtifactRef) (reconcile : Bool)
  | review (files : Files) (token : String)
  | dialect (id : String) (req : DialectPublicationRequest) (d : DialectOutside)
  | receipt (preparation revision variant version id : String)

/-- An act, what it takes from outside, and how many saves it makes. -/
structure Action where
  act : Act
  outside : Outside
  saves : Nat

/-- A lock Desk did not write was accepted with nothing. -/
def replaceLock (lock : Option Bytes) (d : Disk) : Disk := { d with lock, accepted := none }

def step (d : Disk) (a : Action) : Disk :=
  match a.act with
  | .outside lock => replaceLock lock d
  | .lock files ran token refs reconcile => (lockConfirmed e a.outside files ran token refs reconcile a.saves d).store
  | .review files token => (reviewProject e a.outside files token a.saves d).store
  | .dialect id req outside => (publishCheckedDialect e a.outside id req outside a.saves d).store
  | .receipt preparation revision variant version id =>
    (retainPublicationReceipt e (e.requestDigest preparation revision variant version) id a.saves d).store

end Publication

end Desk
