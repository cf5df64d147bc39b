import Desk.Lib.Keyed
import Desk.Policy.Ownership

/-!
# The lifecycle of releases

A view of the publications of a policy at one reading of the clock, recomputed
from the activations and withdrawals each time it is asked for.
-/

namespace Desk

/-! ## The events of a stream -/

def lifecycleEvents (stream : Option PolicyLifecycleStream) : List PolicyLifecycleEvent :=
  (stream.map PolicyLifecycleStream.events).getD []

/-- The map from publications to their event of one kind. -/
def decisionOf (action : LifecycleAction) (events : List PolicyLifecycleEvent) (publicationID : String) :
    Option PolicyLifecycleEvent :=
  lastWith PolicyLifecycleEvent.publicationID (events.filter (·.action = action)) publicationID

def activationOf : List PolicyLifecycleEvent → String → Option PolicyLifecycleEvent := decisionOf .activate

def withdrawalOf : List PolicyLifecycleEvent → String → Option PolicyLifecycleEvent := decisionOf .withdraw

/-! ## One release -/

/-- The status its own activation gives a release. -/
def activatedStatus (now : String) : Option PolicyLifecycleEvent → ReleaseStatus
  | none => .published
  | some event =>
    if event.expiresAt ≠ "" ∧ event.expiresAt ≤ now then .expired
    else if event.effectiveAt ≤ now then .effective
    else .published

/-- Whether the activation `event` has superseded a release: a withdrawal before its time cancels it. -/
def supersedes (events : List PolicyLifecycleEvent) (now publicationID : String) (event : PolicyLifecycleEvent) : Bool :=
  event.action == .activate && event.supersedesPublicationID == publicationID && decide (event.effectiveAt ≤ now) &&
    (withdrawalOf events event.publicationID).all fun withdrawal => decide (event.effectiveAt ≤ withdrawal.at_)

def releaseStatus (events : List PolicyLifecycleEvent) (now publicationID : String) : ReleaseStatus :=
  if (withdrawalOf events publicationID).isSome then .withdrawn
  else
    let status := activatedStatus now (activationOf events publicationID)
    if events.any (supersedes events now publicationID) && status ≠ .expired then .superseded else status

def releaseLifecycle (record : PolicyStoredRecord) (events : List PolicyLifecycleEvent) (now : String)
    (authority : Option PolicySourceAuthorityStream) (publication : PolicyPublication) : PolicyReleaseLifecycle :=
  let activation := activationOf events publication.id
  let withdrawal := withdrawalOf events publication.id
  { activationAllowed := some ((policyAuthorityOwnership authority).owner.mode == .deskManaged &&
      decide (policyBoundary record authority < publication.sequence) && activation.isNone && withdrawal.isNone)
    publicationID := publication.id
    status := releaseStatus events now publication.id
    effectiveAt := (activation.map PolicyLifecycleEvent.effectiveAt).getD ""
    expiresAt := (activation.map PolicyLifecycleEvent.expiresAt).getD ""
    supersededBy := ((events.filter (supersedes events now publication.id)).getLast?.map
      PolicyLifecycleEvent.publicationID).getD ""
    activationID := (activation.map PolicyLifecycleEvent.id).getD ""
    withdrawalID := (withdrawal.map PolicyLifecycleEvent.id).getD "" }

def policyLifecycleView (record : PolicyStoredRecord) (stream : Option PolicyLifecycleStream) (now : String)
    (authority : Option PolicySourceAuthorityStream) : PolicyLifecycleReply where
  recovery := policyRecoveryProjection record authority
  revision := policyLifecycleRevision stream
  policyRevision := policyEffectiveRevision record authority
  observedAt := now
  releases := record.publications.map (releaseLifecycle record (lifecycleEvents stream) now authority)
  events := lifecycleEvents stream

end Desk
