import Desk.Publication.Review

/-!
# Locking a project

A confirmed review is locked under the project's lock: the lock found enters the
ledger, the accepted reviews are staged, the Runtime writes its lock, and the
ledger is committed, or the lock found is put back.
-/

namespace Desk

namespace Publication

open Saves

variable (e : Tools) (o : Outside)

structure LockFailure where
  status : Nat
  code : String
  message : String

def stale (message : String) : LockFailure := { status := 409, code := "stale", message }

def internal (message : String) : LockFailure := { status := 500, code := "internal", message }

/-- `strings.TrimRight(s, ".")` -/
def trimDots (s : String) : String := String.ofList (s.toList.reverse.dropWhile (· == '.')).reverse

structure LockAnswer where
  files : Nat
  copies : String := "stored"
  copiesProblem : String := ""
  reconciled : Bool := false

/-- What the Runtime's `packs lock` did: the lock it left where it wrote one, and what it said. -/
structure RuntimeLock where
  wrote : Option Bytes
  problem : Option String

/-- `recordForm` -/
def recordForm (s : String) : Bool := hexForm "sha256:" 64 s

/-- A lock of another configuration is another writer's. -/
def pinsConfig (config : String) (now : Option Bytes) : Except String Unit :=
  match now.bind (lockedSet e) with
  | none => .ok ()
  | some pinned =>
    if recordForm pinned.config ∧ pinned.config ≠ config then
      .error "it is a lock of another configuration than the one Desk wrote or locked, so it is another writer's, and was left as it is"
    else .ok ()

/-- The lock found is put back over a lock that is the transaction's own. -/
def restoreLock (previous : Option Bytes) (accepted : Option (List RetainedArtifactRef)) (config : String) :
    Saves Disk String Unit := do
  let disk ← load
  if disk.lock = previous then return ()
  lift (pinsConfig e config disk.lock)
  save fun d => { d with lock := previous, accepted }

/-- The lock on disk pins exactly the set. -/
def pinsSet (lock : Option Bytes) (set : ReviewSet) : Bool :=
  match lock with
  | some raw => decide (raw.length ≤ maxFileBytes) && (lockedSet e raw).any (·.equal set)
  | none => false

/-- The Runtime writes its lock over the one found. -/
def runtimeLocks (wrote : Bytes) (set : ReviewSet) (accepted : List RetainedArtifactRef) (d : Disk) : Disk :=
  { d with
    lock := some wrote
    accepted := if pinsSet e (some wrote) set then some accepted else none
    replaced := match d.lock with
      | some lock => { lock, accepted := d.accepted, items := d.items } :: d.replaced
      | none => d.replaced }

def lockRuntimeProjectAt (ran : RuntimeLock) (set : ReviewSet) (accepted : List RetainedArtifactRef) :
    Saves Disk LockFailure Unit :=
  match ran.wrote with
  | some wrote => save (runtimeLocks e wrote set accepted)
  | none => pure ()

def publicationMatchesSet (p : ArtifactPublication) (set : ReviewSet) : Bool :=
  p.config.any (fun config => "sha256:" ++ config.sha256 == set.config) &&
    decide (p.documents.length = set.entries.length) &&
    set.entries.all fun entry => p.documents.any fun doc =>
      doc.kind == entry.kind && doc.boundAs == entry.id && doc.path == entry.path &&
        "sha256:" ++ doc.content.sha256 == entry.digest

/-- The staged publication of a lock that pins the snapshot. -/
def pendingProjectPublication (pending : Option ArtifactPublication) (snap : ReviewSnapshot) :
    Except String (Option ArtifactPublication) :=
  match snap.lock with
  | none => .ok none
  | some raw =>
    match lockedSet e raw with
    | none => .error "the lock is no lock"
    | some locked =>
      if ¬locked.equal snap.set then .ok none
      else do
        let pending ← readPendingPublication e pending
        return pending.filter fun p => publicationMatchesSet p locked

/-- A file the project has; the lock is the disk's. -/
def projectFiles (files : Files) (lock : Option Bytes) : Files := fun name =>
  if name = runtimeLockName then lock else files name

/-- The snapshot a token names. -/
def confirmedSnapshot (files : Files) (lock : Option Bytes) (token : String) : Except LockFailure ReviewSnapshot :=
  match readSnapshot e (projectFiles files lock) with
  | .ok snap =>
    if reviewToken e snap = token then .ok snap
    else .error (stale "The project changed after you reviewed it, so nothing was locked. Review it again.")
  | .error _ => .error (stale "The project changed after you reviewed it, so nothing was locked. Review it again.")

def answerOf (snap : ReviewSnapshot) : LockAnswer := { files := 1 + snap.set.entries.length }

/-- The history of a lock already committed is confirmed; the Runtime is not run. -/
def reconcileLock (snap : ReviewSnapshot) : Saves Disk LockFailure LockAnswer := do
  let disk ← load
  match pendingProjectPublication e disk.pending snap with
  | .ok (some _) => do
    let _ ← within stale (beginPublication e o snap)
    return { answerOf snap with reconciled := true }
  | _ => refuse (stale "Review the current publication state before confirming its history.")

/-- The candidate with the reviews accepted for it, and these. -/
def admitProjectArtifactReviews (snap : ReviewSnapshot) (p : Transaction) (refs : Table RetainedArtifactRef) :
    Saves Disk String (Transaction × List RetainedArtifactRef) := do
  let disk ← load
  let accepted ← lift (acceptedReviews e o disk.copies snap p refs)
  return ({ p with candidate := acceptedCandidate e p.ledger.items p.candidate accepted }, accepted)

/-- Nothing was locked: the lock found is put back. -/
def lockRefused (previous : Option Bytes) (accepted : Option (List RetainedArtifactRef)) (snap : ReviewSnapshot)
    (problem : Option String) : Saves Disk LockFailure LockAnswer := do
  let restored ← attempt (restoreLock e previous accepted snap.set.config)
  match restored, problem with
  | .error why, _ => refuse (internal
      ("The lock could not be confirmed, and the previous lock could not be put back: " ++ why ++
        ". Run jpack packs verify in the project before relying on it."))
  | .ok (), some why => refuse (internal
      ("The runtime did not lock the project (" ++ trimDots why ++
        "), so the previous lock was put back and nothing else was written."))
  | .ok (), none => refuse (stale "A file changed while it was being locked, so the previous lock was put back and nothing else was written. Review it again.")

/-- The lock is written: its publication is committed. -/
def lockCommitted (p : Transaction) (snap : ReviewSnapshot) : Saves Disk LockFailure LockAnswer := do
  within (fun _ => internal "The reviewed lock was saved, but artifact version history could not be confirmed. Inspect the retained history and review again before continuing. The write was not retried.")
    (p.commit e)
  match ← attempt (storeReviewedCopies e snap) with
  | .ok () => return answerOf snap
  | .error why => return { answerOf snap with copies := "not-stored", copiesProblem := why }

def lockConfirmed (files : Files) (ran : RuntimeLock) (token : String) (refs : Table RetainedArtifactRef) (reconcile : Bool) :
    Saves Disk LockFailure LockAnswer := do
  let disk ← load
  let snap ← lift (confirmedSnapshot e files disk.lock token)
  if reconcile then reconcileLock e o snap
  else
    let p ← within stale (beginPublication e o snap)
    lift ((checkPublicationVersions e.runtime p).mapError stale)
    let (p, accepted) ← within stale (admitProjectArtifactReviews e o snap p refs)
    within (fun _ => internal "The accepted publication review could not be retained. Nothing was locked.")
      (stageReview e p.candidate)
    lockRuntimeProjectAt e ran snap.set accepted
    let after ← load
    if ran.problem.isNone ∧ pinsSet e after.lock snap.set then lockCommitted e p snap
    else lockRefused e disk.lock disk.accepted snap ran.problem

/-- `handleProjectArtifactReview`, of which only the publication's beginning reaches these files. -/
def reviewProject (files : Files) (token : String) : Saves Disk LockFailure Unit := do
  let disk ← load
  let snap ← lift (confirmedSnapshot e files disk.lock token)
  let _ ← within stale (beginPublication e o snap)
  return ()

end Publication

end Desk
