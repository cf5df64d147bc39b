import Desk.Ledger.Failure
import Desk.Lib.Json
import Desk.Lib.Refusal
import Desk.Lib.Table

/-!
# The machine's authority

The registry of the workspaces, their anchors and each project's marker, written
one after another, so that any of them may be missing or an earlier one. The
executors of a workspace, which no operation here sets, are left out.
-/

namespace Desk

namespace Machine

def policyMachineRefusal : PolicyFailure :=
  { policyRefusal 503 "authority-unavailable"
      "Machine Policy authority is unavailable or unresolved. Preserve its trusted configuration and use read-only recovery; do not initialize or replay it."
    with uncertain := true }

def policyMachineRegistryLimit : Nat := 2 ^ 20

def policyMachineWorkspaceLimit : Nat := 256

/-! ## The registry -/

inductive WorkspaceState where
  | legacy | enrolling | enrolled
deriving DecidableEq

def WorkspaceState.text : WorkspaceState → String
  | .legacy => "legacy"
  | .enrolling => "enrolling"
  | .enrolled => "enrolled"

structure Intent where
  nonce : String
  ledgerDigest : String
deriving DecidableEq

structure Workspace where
  workspaceID : String
  projectPath : String
  projectIdentity : String
  state : WorkspaceState
  intent : Option Intent
deriving DecidableEq

structure Registry where
  version : Nat
  installationID : String
  rootIdentity : String
  generation : Nat
  workspaces : List Workspace
deriving DecidableEq

open Json in
def Workspace.json (w : Workspace) : Json :=
  obj (member "workspaceId" (str w.workspaceID) ++ member "projectPath" (str w.projectPath) ++
    member "projectIdentity" (str w.projectIdentity) ++ member "state" (str w.state.text) ++
    optMember "intent" w.intent fun i => obj (member "nonce" (str i.nonce) ++ member "ledgerDigest" (str i.ledgerDigest)))

open Json in
def Registry.json (r : Registry) : Json :=
  obj (member "version" (nat r.version) ++ member "installationId" (str r.installationID) ++
    member "rootIdentity" (str r.rootIdentity) ++ member "generation" (nat r.generation) ++
    member "workspaces" (list Workspace.json r.workspaces))

def digits (lo hi : Nat) (l : List Char) : Bool := l.all Char.isDigit && decide (lo ≤ l.length ∧ l.length ≤ hi)

/-- `^[0-9]{1,20}:[0-9]{1,20}$` -/
def fileIdentityForm (s : String) : Bool :=
  match s.toList.splitOn ':' with
  | [device, file] => digits 1 20 device && digits 1 20 file
  | _ => false

/-- An absolute path that is its own `filepath.Clean`. -/
def cleanAbsolute (path : String) : Bool :=
  path == "/" ||
    match path.toList with
    | '/' :: rest => (rest.splitOn '/').all fun part => !part.isEmpty && part != ['.'] && part != ['.', '.']
    | _ => false

def validProjectHistoryPath (path : String) : Bool :=
  cleanAbsolute path && path.toList.all fun c => c != Char.ofNat 0 && c != '\r' && c != '\n'

def Intent.valid (i : Intent) : Bool := policyAuthorityAnchorNonceForm i.nonce && retainedArtifactDigest i.ledgerDigest

def Workspace.valid (w : Workspace) : Bool :=
  retainedArtifactDigest w.workspaceID && validProjectHistoryPath w.projectPath && decide (len w.projectPath ≤ 2048) &&
    fileIdentityForm w.projectIdentity && (w.state == .enrolling) == w.intent.isSome && w.intent.all Intent.valid

/-- What `decodePolicyMachineRegistry` asks of a registry it has read. -/
def Registry.valid (r : Registry) : Bool :=
  decide (1 ≤ r.version ∧ r.version ≤ 3) && retainedArtifactDigest r.installationID &&
    fileIdentityForm r.rootIdentity && decide (0 < r.generation ∧ r.generation ≤ policyAuthorityAnchorMaxGeneration) &&
    decide (r.workspaces.length ≤ policyMachineWorkspaceLimit) && r.workspaces.all Workspace.valid &&
    decide (r.workspaces.map Workspace.workspaceID).Nodup && decide (r.workspaces.map Workspace.projectPath).Nodup &&
    decide (r.workspaces.map Workspace.projectIdentity).Nodup

/-! ## The stores -/

structure Marker where
  version : Nat
  installationID : String
  workspaceID : String
deriving DecidableEq

def Marker.valid (m : Marker) : Bool :=
  m.version == 1 && retainedArtifactDigest m.installationID && retainedArtifactDigest m.workspaceID

inductive MarkerFile where
  | unreadable
  | marker (m : Marker)
deriving DecidableEq

/-- A project's folder of demands: none, one that is no folder or is replaced while it is read, or a folder
and the marker in it. -/
inductive Demand where
  | absent
  | irregular
  | folder (isPrivate : Bool) (file : Option MarkerFile)
deriving DecidableEq

/-- An entry of the anchors folder. -/
structure AnchorEntry where
  isDir : Bool
  anchor : Option (PolicyAuthorityAnchorState String)

/-- The write a registry comes from. -/
inductive Phase where
  | init
  | legacy (workspaceID : String)
  | intent (workspaceID : String)
  | final (workspaceID : String)
deriving DecidableEq

/-- The machine root. `versions` are the registries that were written, the last one last. -/
structure MachineRoot where
  identity : String
  lease : Bool := false
  registry : Option Registry := none
  anchors : Option (Table AnchorEntry) := none
  versions : List (Phase × Registry) := []

/-- The machine root, and the demands in the projects, by the identity of their folders. -/
structure MachineState where
  root : Option MachineRoot
  demands : Table Demand

def MachineState.start : MachineState := ⟨none, Table.empty⟩

/-- A project as it was opened: its path, the identity of its folder, and whether that is still the folder there. -/
structure Project where
  dir : String
  identity : String
  held : Bool
deriving DecidableEq

def MachineState.demandOf (s : MachineState) (p : Project) : Demand := (s.demands.get? p.identity).getD .absent

/-! ## Reading -/

def inspectPolicyMachineMarker : Demand → Except PolicyFailure (Option Marker)
  | .absent => .ok none
  | .irregular => .error policyMachineRefusal
  | .folder _ none => .ok none
  | .folder false (some _) => .error policyMachineRefusal
  | .folder true (some .unreadable) => .error policyMachineRefusal
  | .folder true (some (.marker m)) => if m.valid then .ok (some m) else .error policyMachineRefusal

def policyMachineNoDemand (demand : Demand) : Except PolicyFailure Unit := do
  let marker ← inspectPolicyMachineMarker demand
  refuseWhen marker.isSome policyMachineRefusal

/-- An entry of the anchors is of a workspace that is no legacy. -/
def known (r : Registry) (name : String) (entry : AnchorEntry) : Bool :=
  r.workspaces.any fun w => name == w.workspaceID && w.state != .legacy && entry.isDir

/-- A rolled-back legacy classification cannot hide an existing anchor. -/
def knownAnchors (r : Registry) : Option (Table AnchorEntry) → Bool
  | none => true
  | some anchors => decide (anchors.size ≤ policyMachineWorkspaceLimit) && anchors.all (known r)

def readRegistry (installationID : String) (custody : Bool) (root : MachineRoot) : Except PolicyFailure Registry := do
  refuseWhen (¬custody) policyMachineRefusal
  let r ← orRefuse root.registry policyMachineRefusal
  refuseWhen (¬r.valid ∨ r.installationID ≠ installationID ∨ r.rootIdentity ≠ root.identity) policyMachineRefusal
  refuseWhen (¬knownAnchors r root.anchors) policyMachineRefusal
  return r

/-- The workspace of a project. One that has its path or its folder alone is refused. -/
def policyMachineWorkspaceFor (r : Registry) (p : Project) : Except PolicyFailure (Option Workspace) := do
  refuseWhen (¬p.held) policyMachineRefusal
  match r.workspaces.find? fun w => w.projectPath == p.dir || w.projectIdentity == p.identity with
  | none => return none
  | some w => do
    refuseWhen (w.projectPath ≠ p.dir ∨ w.projectIdentity ≠ p.identity) policyMachineRefusal
    return some w

/-- What stands of the host: the paths apart, the root and its lease the ones that were opened. -/
structure Standing where
  separate : Bool
  custody : Bool

/-- The anchor of a project; none where it is legacy, and its ledger is written without one. -/
def resolve (s : MachineState) (installationID : String) (standing : Standing) (p : Project) :
    Except PolicyFailure (Option PolicyAuthorityAnchorIdentity) := do
  refuseWhen (¬standing.separate) policyMachineRefusal
  let root ← orRefuse s.root policyMachineRefusal
  let r ← readRegistry installationID standing.custody root
  let w ← orRefuse (← policyMachineWorkspaceFor r p) policyMachineRefusal
  refuseWhen (w.state = .enrolling) policyMachineRefusal
  let marker ← inspectPolicyMachineMarker (s.demandOf p)
  if w.state = .legacy then do
    refuseWhen marker.isSome policyMachineRefusal
    return none
  else do
    refuseWhen (¬marker.any fun m => m.installationID == r.installationID && m.workspaceID == w.workspaceID)
      policyMachineRefusal
    refuseWhen (¬validPolicyAuthorityAnchorIdentity ⟨r.installationID, w.workspaceID⟩) policyMachineRefusal
    return some ⟨r.installationID, w.workspaceID⟩

/-! ## Writing -/

/-- How a write ends: whether it took effect, and whether the operation goes on. A stop is no answer. -/
structure Fate where
  took : Bool
  answered : Bool
deriving DecidableEq

/-- A part of an operation: the state after it, and whether the operation goes on. -/
abbrev Part : Type := MachineState → MachineState × Bool

def Part.andThen (f g : Part) : Part := fun s => if (f s).2 then g (f s).1 else f s

def haltIf (c : Prop) [Decidable c] (f : Part) : Part := fun s => if c then (s, false) else f s

/-- A write to the machine root. -/
def onRoot (fate : Fate) (f : MachineRoot → MachineRoot) : Part := fun s =>
  match s.root with
  | none => (s, false)
  | some root => (if fate.took then { s with root := some (f root) } else s, fate.answered)

def MachineRoot.written (root : MachineRoot) (phase : Phase) (r : Registry) : MachineRoot :=
  { root with registry := some r, versions := root.versions ++ [(phase, r)] }

/-- `persist` of a registry. -/
def persistRegistry (fate : Fate) (phase : Phase) (r : Registry) : Part :=
  haltIf (policyMachineRegistryLimit < (Json.marshal r.json).length) (onRoot fate (·.written phase r))

/-! ## Initialization -/

structure InitCall where
  admitted : Bool
  mkdir : Fate
  rootIdentity : String
  opened : Bool
  lease : Fate
  leased : Bool
  installationID : String
  custody : Bool
  registry : Fate

/-- A root that is there already is never reset. -/
def makeRoot (fate : Fate) (identity : String) : Part := fun s =>
  if s.root.isSome then (s, false)
  else (if fate.took then { s with root := some { identity := identity } } else s, fate.answered)

def initialRegistry (call : InitCall) : Registry := ⟨1, call.installationID, call.rootIdentity, 1, []⟩

def initializePolicyMachine (call : InitCall) : Part :=
  haltIf (¬call.admitted) <|
    (makeRoot call.mkdir call.rootIdentity).andThen <|
    haltIf (¬call.opened) <|
    (onRoot call.lease fun root => { root with lease := true }).andThen <|
    haltIf (¬call.leased ∨ ¬call.custody) <|
    persistRegistry call.registry .init (initialRegistry call)

/-! ## Classification -/

/-- What an operation is given: the configuration, the project, whether the host admits it, whether the project
is idle and the registry locked. -/
structure Call where
  installationID : String
  project : Project
  admitted : Bool
  custody : Bool
  idle : Bool
  locked : Bool

structure ClassifyCall extends Call where
  workspaceID : String
  fate : Fate

/-- The registry and the project's workspace, of an operation that is admitted. -/
def opened (s : MachineState) (call : Call) : Except PolicyFailure (MachineRoot × Registry × Option Workspace) := do
  refuseWhen (¬call.admitted) policyMachineRefusal
  let root ← orRefuse s.root policyMachineRefusal
  refuseWhen (¬root.lease) policyMachineRefusal
  let r ← readRegistry call.installationID call.custody root
  let found ← policyMachineWorkspaceFor r call.project
  refuseWhen (¬call.idle) policyMachineRefusal
  return (root, r, found)

def classifyAdmitted (s : MachineState) (call : ClassifyCall) : Except PolicyFailure Registry := do
  let (_, r, found) ← opened s call.toCall
  refuseWhen found.isSome policyMachineRefusal
  policyMachineNoDemand (s.demandOf call.project)
  refuseWhen (¬call.locked) policyMachineRefusal
  refuseWhen (policyMachineWorkspaceLimit ≤ r.workspaces.length ∨ r.generation = policyAuthorityAnchorMaxGeneration)
    policyMachineRefusal
  return r

def Registry.classified (r : Registry) (p : Project) (workspaceID : String) : Registry :=
  { r with
    generation := r.generation + 1
    workspaces := r.workspaces ++ [⟨workspaceID, p.dir, p.identity, .legacy, none⟩] }

def classifyLegacy (call : ClassifyCall) : Part := fun s =>
  match classifyAdmitted s call with
  | .error _ => (s, false)
  | .ok r => persistRegistry call.fate (.legacy call.workspaceID) (r.classified call.project call.workspaceID) s

/-! ## Enrollment -/

structure EnrollmentCall extends Call where
  ledger : Option (List UInt8)
  relocked : Bool
  cancelled : Bool
  nonce : Option String
  intent : Fate
  marker : Fate
  anchors : Fate
  workspace : Fate
  anchor : EnrollCall
  finalAdmitted : Bool
  final : Fate

/-- Enrollment is allowed only from a known legacy classification. -/
def enrollAdmitted (s : MachineState) (call : EnrollmentCall) :
    Except PolicyFailure (Registry × Workspace × List UInt8 × String) := do
  let (root, _, found) ← opened s call.toCall
  let w ← orRefuse found policyMachineRefusal
  refuseWhen (w.state ≠ .legacy) policyMachineRefusal
  policyMachineNoDemand (s.demandOf call.project)
  let raw ← orRefuse call.ledger policyMachineRefusal
  refuseWhen (¬call.locked) policyMachineRefusal
  let r ← readRegistry call.installationID call.relocked root
  let current ← policyMachineWorkspaceFor r call.project
  refuseWhen (current ≠ some w ∨ policyAuthorityAnchorMaxGeneration - 2 < r.generation ∨ call.cancelled)
    policyMachineRefusal
  policyMachineNoDemand (s.demandOf call.project)
  let nonce ← orRefuse call.nonce policyMachineRefusal
  return (r, w, raw, nonce)

/-- A workspace of the registry in another state. -/
def Registry.placed (r : Registry) (workspaceID : String) (state : WorkspaceState) (intent : Option Intent) : Registry :=
  { r with
    generation := r.generation + 1
    workspaces := r.workspaces.map fun w =>
      if w.workspaceID = workspaceID then { w with state := state, intent := intent } else w }

/-- The marker is claimed in the project's private folder, never over another. -/
def claimMarker (fate : Fate) (p : Project) (m : Marker) : Part := fun s =>
  match s.demandOf p with
  | .folder true none =>
    (if fate.took then { s with demands := s.demands.set p.identity (.folder true (some (.marker m))) } else s,
      fate.answered)
  | _ => (s, false)

def makeAnchors (fate : Fate) : Part := fun s =>
  if (s.root.bind (·.anchors)).isSome then (s, true)
  else onRoot fate (fun root => { root with anchors := some Table.empty }) s

def MachineRoot.entry (root : MachineRoot) (workspaceID : String) : Option AnchorEntry :=
  root.anchors.bind (·.get? workspaceID)

def MachineRoot.setEntry (root : MachineRoot) (workspaceID : String) (entry : AnchorEntry) : MachineRoot :=
  { root with anchors := root.anchors.map (·.set workspaceID entry) }

def makeWorkspace (fate : Fate) (workspaceID : String) : Part := fun s =>
  if (s.root.bind (·.entry workspaceID)).isSome then (s, true)
  else onRoot fate (·.setEntry workspaceID ⟨true, none⟩) s

/-- The anchor is enrolled in its directory. -/
def enrollAnchor (call : EnrollCall) (identity : PolicyAuthorityAnchorIdentity) (raw : List UInt8) : Part := fun s =>
  match s.root.bind (·.entry identity.workspaceID) with
  | none => (s, false)
  | some entry =>
    if entry.isDir = false then (s, false)
    else
      let (returned, w) := enroll sha256Scheme identity call raw ⟨⟨raw, entry.anchor⟩, false, []⟩
      onRoot ⟨true, decide (returned = .nil)⟩ (·.setEntry identity.workspaceID { entry with anchor := w.disk.anchor }) s

def enrollment (call : EnrollmentCall) (r : Registry) (w : Workspace) (raw : List UInt8) (nonce : String) : Part :=
  let intended := r.placed w.workspaceID .enrolling (some ⟨nonce, digestOf raw⟩)
  let identity : PolicyAuthorityAnchorIdentity := ⟨r.installationID, w.workspaceID⟩
  (persistRegistry call.intent (.intent w.workspaceID) intended).andThen <|
    (claimMarker call.marker call.project ⟨1, r.installationID, w.workspaceID⟩).andThen <|
    haltIf (¬validPolicyAuthorityAnchorIdentity identity ∨ ¬policyAuthorityAnchorLedgerBytes raw ∨
      call.anchor.cancelled) <|
    (makeAnchors call.anchors).andThen <|
    (makeWorkspace call.workspace w.workspaceID).andThen <|
    (enrollAnchor call.anchor identity raw).andThen <|
    haltIf (¬call.finalAdmitted) <|
    persistRegistry call.final (.final w.workspaceID) (intended.placed w.workspaceID .enrolled none)

def enrollLegacy (call : EnrollmentCall) : Part := fun s =>
  match enrollAdmitted s call with
  | .error _ => (s, false)
  | .ok (r, w, raw, nonce) => enrollment call r w raw nonce s

/-! ## Steps -/

/-- An operation, an earlier registry put back, or whatever befalls a project's folder of demands. -/
inductive Act where
  | init (call : InitCall)
  | classifyLegacy (call : ClassifyCall)
  | enroll (call : EnrollmentCall)
  | rollback (r : Registry)
  | demand (identity : String) (demand : Demand)

def MachineState.versions (s : MachineState) : List (Phase × Registry) := (s.root.map (·.versions)).getD []

def MachineState.registry (s : MachineState) : Option Registry := s.root.bind (·.registry)

/-- A registry there was is put back. -/
def rollback (r : Registry) (s : MachineState) : MachineState :=
  if r ∈ s.versions.map Prod.snd then { s with root := s.root.map fun root => { root with registry := some r } } else s

def step (s : MachineState) : Act → MachineState
  | .init call => (initializePolicyMachine call s).1
  | .classifyLegacy call => (classifyLegacy call s).1
  | .enroll call => (enrollLegacy call s).1
  | .rollback r => rollback r s
  | .demand identity demand => { s with demands := s.demands.set identity demand }

end Machine

end Desk
