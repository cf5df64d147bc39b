import Desk.Policy.Record
import Desk.Lib.Run

/-!
# The policy authority anchor

A machine-local record of the last ledger the authority finished writing. The
disk holds the ledger and the anchor record; `poisoned` is the one thing the
process keeps in memory. Every write has a fate of its own, and the process may
stop at each of them. An anchor record is modelled decoded: only the anchor
itself writes the file.
-/

namespace Desk

/-- What the anchor uses of a digest. -/
structure DigestScheme (D : Type) where
  digestOf : List UInt8 → D
  form : D → Bool
  form_digestOf : ∀ raw, form (digestOf raw) = true

def sha256Scheme : DigestScheme String where
  digestOf := Desk.digestOf
  form := retainedArtifactDigest
  form_digestOf := digestOf_form

def policyAuthorityAnchorMaxGeneration : Nat := 2 ^ 53 - 1

structure PolicyAuthorityAnchorIdentity where
  installationID : String
  workspaceID : String
deriving DecidableEq

structure PolicyAuthorityAnchorIntent (D : Type) where
  generation : Nat
  oldDigest : D
  newDigest : D
  nonce : String
deriving DecidableEq

structure PolicyAuthorityAnchorState (D : Type) where
  version : Nat
  installationID : String
  workspaceID : String
  generation : Nat
  ledgerDigest : D
  intent : Option (PolicyAuthorityAnchorIntent D)
deriving DecidableEq

/-! ## Refusals -/

inductive AnchorClass where
  | current | mismatch | pendingOld | pendingNew | pendingOther
deriving DecidableEq

def AnchorClass.text : AnchorClass → String
  | .current => "current"
  | .mismatch => "mismatch"
  | .pendingOld => "pending-old"
  | .pendingNew => "pending-new"
  | .pendingOther => "pending-other"

inductive AnchorCode where
  | invalidInput | integrity | identity | unavailable | uncertain | missing | busy | exists | mismatch | pending
  | callbackRefused | notHeld | alreadyAttempted | exhausted
deriving DecidableEq

def AnchorCode.text : AnchorCode → String
  | .invalidInput => "policy-authority-anchor-invalid-input"
  | .integrity => "policy-authority-anchor-integrity"
  | .identity => "policy-authority-anchor-identity"
  | .unavailable => "policy-authority-anchor-unavailable"
  | .uncertain => "policy-authority-anchor-uncertain"
  | .missing => "policy-authority-anchor-missing"
  | .busy => "policy-authority-anchor-busy"
  | .exists => "policy-authority-anchor-exists"
  | .mismatch => "policy-authority-anchor-mismatch"
  | .pending => "policy-authority-anchor-pending"
  | .callbackRefused => "policy-authority-anchor-callback-refused"
  | .notHeld => "policy-authority-anchor-not-held"
  | .alreadyAttempted => "policy-authority-anchor-already-attempted"
  | .exhausted => "policy-authority-anchor-exhausted"

structure PolicyAuthorityAnchorError where
  code : AnchorCode
  classification : Option AnchorClass
deriving DecidableEq

def policyAuthorityAnchorRefusal (code : AnchorCode) : PolicyAuthorityAnchorError := ⟨code, none⟩

/-! ## Records and their classification -/

def policyAuthorityAnchorIdentityForm (s : String) : Bool :=
  wordForm 1 128 s && s.toList.head?.any Char.isAlphanum

def policyAuthorityAnchorNonceForm (s : String) : Bool := hexForm "" 48 s

def validPolicyAuthorityAnchorIdentity (i : PolicyAuthorityAnchorIdentity) : Bool :=
  policyAuthorityAnchorIdentityForm i.installationID && policyAuthorityAnchorIdentityForm i.workspaceID

def policyAuthorityAnchorLedgerBytes (raw : List UInt8) : Bool :=
  raw.length != 0 && decide (raw.length ≤ policyLedgerLimit)

section
variable {D : Type} [DecidableEq D] (scheme : DigestScheme D)

def PolicyAuthorityAnchorIntent.valid (s : PolicyAuthorityAnchorState D) (p : PolicyAuthorityAnchorIntent D) : Bool :=
  s.generation != policyAuthorityAnchorMaxGeneration && p.generation == s.generation + 1 &&
    p.oldDigest == s.ledgerDigest && scheme.form p.newDigest && p.newDigest != p.oldDigest &&
    policyAuthorityAnchorNonceForm p.nonce

def validatePolicyAuthorityAnchorState (s : PolicyAuthorityAnchorState D) : Bool :=
  s.version == 1 && validPolicyAuthorityAnchorIdentity ⟨s.installationID, s.workspaceID⟩ &&
    decide (1 ≤ s.generation) && decide (s.generation ≤ policyAuthorityAnchorMaxGeneration) &&
    scheme.form s.ledgerDigest && s.intent.all (PolicyAuthorityAnchorIntent.valid scheme s)

def classifyPolicyAuthorityAnchor (s : PolicyAuthorityAnchorState D) (identity : PolicyAuthorityAnchorIdentity)
    (observed : D) : Except PolicyAuthorityAnchorError AnchorClass :=
  if !validatePolicyAuthorityAnchorState scheme s then .error (policyAuthorityAnchorRefusal .integrity)
  else if !validPolicyAuthorityAnchorIdentity identity || s.installationID != identity.installationID ||
      s.workspaceID != identity.workspaceID then .error (policyAuthorityAnchorRefusal .identity)
  else if !scheme.form observed then .error (policyAuthorityAnchorRefusal .invalidInput)
  else match s.intent with
    | some p =>
      .ok (if observed = p.oldDigest then .pendingOld
        else if observed = p.newDigest then .pendingNew else .pendingOther)
    | none => .ok (if observed = s.ledgerDigest then .current else .mismatch)

end

/-! ## The disk and writes to it -/

structure AnchorDisk (D : Type) where
  ledger : List UInt8
  anchor : Option (PolicyAuthorityAnchorState D)

/-- How one durable write ends, and where it did not simply succeed whether it took effect. -/
inductive WriteFate where
  | succeeds
  | fails (took : Bool)
  | panics (took : Bool)
  | stops (took : Bool)
deriving DecidableEq

def WriteFate.took : WriteFate → Bool
  | .succeeds => true
  | .fails took => took
  | .panics took => took
  | .stops took => took

inductive DiskWrite (D : Type) where
  | anchor (state : PolicyAuthorityAnchorState D)
  | ledger (raw : List UInt8)

/-- `log` lists the writes that were attempted, the last one last. -/
structure AnchorWorld (D : Type) where
  disk : AnchorDisk D
  poisoned : Bool
  log : List (DiskWrite D × WriteFate)

/-- How a call ends: with `nil` or a Go error, in a panic, or with the whole process. -/
inductive Returned (ε : Type) where
  | nil
  | error (e : ε)
  | panicked
  | stopped
deriving DecidableEq

section
variable {D : Type}

def AnchorDisk.apply (disk : AnchorDisk D) : DiskWrite D → AnchorDisk D
  | .anchor state => { disk with anchor := some state }
  | .ledger raw => { disk with ledger := raw }

namespace AnchorWorld

def poison (w : AnchorWorld D) : AnchorWorld D := { w with poisoned := true }

def attempt (w : AnchorWorld D) (write : DiskWrite D) (fate : WriteFate) : AnchorWorld D :=
  { w with disk := if fate.took then w.disk.apply write else w.disk, log := w.log ++ [(write, fate)] }

end AnchorWorld

variable [DecidableEq D] (scheme : DigestScheme D)

def persist (fate : WriteFate) (state : PolicyAuthorityAnchorState D) (w : AnchorWorld D) :
    Returned PolicyAuthorityAnchorError × AnchorWorld D :=
  if !validatePolicyAuthorityAnchorState scheme state then (.error (policyAuthorityAnchorRefusal .integrity), w)
  else
    let w := w.attempt (.anchor state) fate
    match fate with
    | .succeeds => (.nil, w)
    | .fails _ => (.error (policyAuthorityAnchorRefusal .uncertain), w.poison)
    | .panics _ => (.panicked, w)
    | .stops _ => (.stopped, w)

/-! ## Opening and enrolment -/

inductive Opening where
  | opens | absent | fails | locked
deriving DecidableEq

/-- `none` where the anchor is opened and locked. -/
def openAnchor (cancelled : Bool) (opening : Opening) (cancelledLate : Bool) (w : AnchorWorld D) :
    Option PolicyAuthorityAnchorError :=
  if cancelled then some (policyAuthorityAnchorRefusal .unavailable)
  else if w.poisoned then some (policyAuthorityAnchorRefusal .uncertain)
  else match opening with
    | .absent => some (policyAuthorityAnchorRefusal .missing)
    | .fails => some (policyAuthorityAnchorRefusal .unavailable)
    | .locked => some (policyAuthorityAnchorRefusal .busy)
    | .opens => if cancelledLate then some (policyAuthorityAnchorRefusal .unavailable) else none

structure EnrollCall where
  cancelled : Bool
  opening : Opening
  cancelledLate : Bool
  readable : Bool
  cancelledRead : Bool
  fate : WriteFate
  cancelledAfter : Bool

def enroll (identity : PolicyAuthorityAnchorIdentity) (call : EnrollCall) (currentLedger : List UInt8)
    (w : AnchorWorld D) : Returned PolicyAuthorityAnchorError × AnchorWorld D :=
  if !policyAuthorityAnchorLedgerBytes currentLedger then (.error (policyAuthorityAnchorRefusal .invalidInput), w)
  else match openAnchor call.cancelled call.opening call.cancelledLate w with
    | some e => (.error e, w)
    | none =>
      if !call.readable then (.error (policyAuthorityAnchorRefusal .unavailable), w)
      else if w.disk.anchor.isSome then (.error (policyAuthorityAnchorRefusal .exists), w)
      else if call.cancelledRead then (.error (policyAuthorityAnchorRefusal .unavailable), w)
      else match persist scheme call.fate ⟨1, identity.installationID, identity.workspaceID, 1,
          scheme.digestOf currentLedger, none⟩ w with
        | (.nil, w) =>
          if call.cancelledAfter then (.error (policyAuthorityAnchorRefusal .uncertain), w.poison) else (.nil, w)
        | (r, w) => (r, w)

/-! ## Advance -/

structure AnchorHeld (D : Type) where
  state : PolicyAuthorityAnchorState D
  active : Bool
  attempted : Bool
  advanced : Bool
  failure : Option PolicyAuthorityAnchorError

/-- The trusted ledger write, and whether it altered the copy it was given. -/
structure DurableWrite where
  fate : WriteFate
  altered : Bool

/-- What a call of `Advance` meets: `ready`, `intentHeld`, `ledgerHeld` and `finalHeld` say that neither
cancellation nor lost custody is seen at the four points that ask. -/
structure AdvanceConditions where
  ready : Bool
  nonce : Option String
  intentFate : WriteFate
  intentHeld : Bool
  ledgerHeld : Bool
  finalFate : WriteFate
  finalHeld : Bool

structure AdvanceCall extends AdvanceConditions where
  nextLedger : List UInt8
  durableWrite : Option DurableWrite

def uncertain (h : AnchorHeld D) (w : AnchorWorld D) :
    Returned PolicyAuthorityAnchorError × AnchorHeld D × AnchorWorld D :=
  (.error (policyAuthorityAnchorRefusal .uncertain), h, w.poison)

/-- From the end of the ledger write: the record without its intent. -/
def advanceFinal (call : AdvanceCall) (h : AnchorHeld D) (w : AnchorWorld D) :
    Returned PolicyAuthorityAnchorError × AnchorHeld D × AnchorWorld D :=
  if !call.ledgerHeld then uncertain h w
  else
    let committed := { h.state with
      generation := h.state.generation + 1, ledgerDigest := scheme.digestOf call.nextLedger, intent := none }
    match persist scheme call.finalFate committed w with
    | (.nil, w) =>
      let h := { h with state := committed, advanced := true }
      if !call.finalHeld then uncertain h w else (.nil, h, w)
    | (r, w) => (r, h, w)

/-- From the recorded intent: the ledger itself. -/
def advanceLedger (call : AdvanceCall) (write : DurableWrite) (h : AnchorHeld D) (w : AnchorWorld D) :
    Returned PolicyAuthorityAnchorError × AnchorHeld D × AnchorWorld D :=
  if !call.intentHeld then uncertain h w
  else
    let w := w.attempt (.ledger call.nextLedger) write.fate
    match write.fate with
    | .succeeds => if write.altered then uncertain h w else advanceFinal scheme call h w
    | .fails _ => uncertain h w
    | .panics _ => (.panicked, h, w)
    | .stops _ => (.stopped, h, w)

def advanceLocked (call : AdvanceCall) (h : AnchorHeld D) (w : AnchorWorld D) :
    Returned PolicyAuthorityAnchorError × AnchorHeld D × AnchorWorld D :=
  if h.attempted then (.error (policyAuthorityAnchorRefusal .alreadyAttempted), h, w)
  else
    let h := { h with attempted := true }
    if !policyAuthorityAnchorLedgerBytes call.nextLedger then
      (.error (policyAuthorityAnchorRefusal .invalidInput), h, w)
    else if !call.ready then (.error (policyAuthorityAnchorRefusal .unavailable), h, w)
    else if scheme.digestOf call.nextLedger = h.state.ledgerDigest then (.nil, h, w)
    else match call.durableWrite with
      | none => (.error (policyAuthorityAnchorRefusal .invalidInput), h, w)
      | some write =>
        if h.state.generation = policyAuthorityAnchorMaxGeneration then
          (.error (policyAuthorityAnchorRefusal .exhausted), h, w)
        else match call.nonce with
          | none => (.error (policyAuthorityAnchorRefusal .unavailable), h, w)
          | some nonce =>
            let intent := ⟨h.state.generation + 1, h.state.ledgerDigest, scheme.digestOf call.nextLedger, nonce⟩
            let pending := { h.state with intent := some intent }
            match persist scheme call.intentFate pending w with
            | (.nil, w) => advanceLedger scheme call write { h with state := pending } w
            | (r, w) => (r, h, w)

/-- `Advance`: the body, and what is recorded however it ends. -/
def advance (call : AdvanceCall) (h : AnchorHeld D) (w : AnchorWorld D) :
    Returned PolicyAuthorityAnchorError × AnchorHeld D × AnchorWorld D :=
  if !h.active || h.failure.isSome || w.poisoned then (.error (policyAuthorityAnchorRefusal .notHeld), h, w)
  else match advanceLocked scheme call h w with
    | (.nil, h, w) => (.nil, h, w)
    | (.error e, h, w) =>
      if h.advanced then
        (.error (policyAuthorityAnchorRefusal .uncertain),
          { h with failure := some (policyAuthorityAnchorRefusal .uncertain) }, w.poison)
      else (.error e, { h with failure := some e }, w)
    | (.panicked, h, w) =>
      (.panicked, { h with failure := some (policyAuthorityAnchorRefusal .uncertain) }, w.poison)
    | (.stopped, h, w) => (.stopped, h, w)

/-! ## WithCurrent -/

structure CurrentCall where
  cancelled : Bool
  opening : Opening
  cancelledLate : Bool
  readable : Bool
  ready : Bool
  custodyAfter : Bool
  cancelledAfter : Bool

/-- What comes before the callback; it runs where this gives the held anchor. -/
def admitCurrent (identity : PolicyAuthorityAnchorIdentity) (call : CurrentCall) (currentLedger : List UInt8)
    (w : AnchorWorld D) : Except PolicyAuthorityAnchorError (AnchorHeld D) :=
  if !policyAuthorityAnchorLedgerBytes currentLedger then .error (policyAuthorityAnchorRefusal .invalidInput)
  else match openAnchor call.cancelled call.opening call.cancelledLate w with
    | some e => .error e
    | none =>
      match w.disk.anchor with
      | none => .error (policyAuthorityAnchorRefusal .missing)
      | some state =>
        if !call.readable then .error (policyAuthorityAnchorRefusal .unavailable)
        else match classifyPolicyAuthorityAnchor scheme state identity (scheme.digestOf currentLedger) with
          | .error e => .error e
          | .ok .current =>
            if !call.ready then .error (policyAuthorityAnchorRefusal .unavailable)
            else .ok ⟨state, true, false, false, none⟩
          | .ok observed =>
            if state.intent.isSome then .error ⟨.pending, some observed⟩
            else .error (policyAuthorityAnchorRefusal .mismatch)

/-- What comes after a callback that returned, with (`refused`) or without an error. -/
def leaveCurrent (call : CurrentCall) (refused : Bool) (h : AnchorHeld D) (w : AnchorWorld D) :
    Returned PolicyAuthorityAnchorError × AnchorWorld D :=
  if !call.custodyAfter then (.error (policyAuthorityAnchorRefusal .uncertain), w.poison)
  else match h.failure with
    | some e => (.error e, w)
    | none =>
      if h.state.intent.isSome || w.poisoned then (.error (policyAuthorityAnchorRefusal .uncertain), w.poison)
      else if refused || call.cancelledAfter then
        if h.advanced then (.error (policyAuthorityAnchorRefusal .uncertain), w.poison)
        else (.error (policyAuthorityAnchorRefusal .callbackRefused), w)
      else (.nil, w)

def withCurrent {ε : Type} (identity : PolicyAuthorityAnchorIdentity) (call : CurrentCall)
    (currentLedger : List UInt8) (use : AnchorHeld D → AnchorWorld D → Returned ε × AnchorHeld D × AnchorWorld D)
    (w : AnchorWorld D) : Returned PolicyAuthorityAnchorError × AnchorWorld D :=
  match admitCurrent scheme identity call currentLedger w with
  | .error e => (.error e, w)
  | .ok held =>
    match use held w with
    | (.nil, h, w) => leaveCurrent call false h w
    | (.error _, h, w) => leaveCurrent call true h w
    | (.panicked, h, w) => (.panicked, if h.advanced then w.poison else w)
    | (.stopped, _, w) => (.stopped, w)

/-- A callback as the calls of `Advance` it makes and the way it ends. -/
def useScript {ε : Type} (ending : Returned ε) :
    List AdvanceCall → AnchorHeld D → AnchorWorld D → Returned ε × AnchorHeld D × AnchorWorld D
  | [], h, w => (ending, h, w)
  | call :: rest, h, w =>
    match advance scheme call h w with
    | (.stopped, h, w) => (.stopped, h, w)
    | (_, h, w) => useScript ending rest h w

/-! ## Runs of one installation -/

inductive AnchorAction where
  | enroll (call : EnrollCall)
  | transact (call : CurrentCall) (advances : List AdvanceCall) (ending : Returned Unit)
  | restart
  | replaceLedger (raw : List UInt8)

/-- The caller reads the ledger under its lock, so it passes the bytes on the disk. -/
def anchorStep (identity : PolicyAuthorityAnchorIdentity) (w : AnchorWorld D) : AnchorAction → AnchorWorld D
  | .enroll call => (enroll scheme identity call w.disk.ledger w).2
  | .transact call advances ending =>
    (withCurrent scheme identity call w.disk.ledger (useScript scheme ending advances) w).2
  | .restart => { w with poisoned := false }
  | .replaceLedger raw => { w with disk := { w.disk with ledger := raw } }

/-- A disk before any enrolment. -/
def anchorStart (ledger : List UInt8) : AnchorWorld D := ⟨⟨ledger, none⟩, false, []⟩

end

end Desk
