import Desk.Lib.Base64
import Desk.Types.Encode

/-!
# Requests

What a client may send, as decoded: a word outside a vocabulary is still a text
here and is refused by the service that reads it.
-/

namespace Desk

/-! ## Policy commands -/

structure PolicyImport where
  name : String
  mediaType : String
  data : List UInt8
deriving DecidableEq

structure PolicyEditRequest where
  import_ : Option PolicyImport
  operationID : String
  baseRevision : String
  title : String
  narrative : String
  artifactVersion : String
  workflow : Option PolicyWorkflow
deriving DecidableEq

structure PolicyReviewRequest where
  operationID : String
  baseRevision : String
  candidateDigest : String
  workflowDigest : String
  decision : String
  comment : String
deriving DecidableEq

structure PolicyPublishRequest where
  operationID : String
  baseRevision : String
  candidateDigest : String
  workflowDigest : String
  reviewID : String
deriving DecidableEq

def PolicyImport.toJson (x : PolicyImport) : Json := .obj <|
  [("name", .str x.name), ("mediaType", .str x.mediaType), ("data", .str (Base64.encode x.data))]

def PolicyEditRequest.toJson (x : PolicyEditRequest) : Json := .obj <|
  Json.optMember "import" x.import_ PolicyImport.toJson ++ [("operationId", .str x.operationID)] ++
  Json.optText "baseRevision" x.baseRevision ++ [("title", .str x.title), ("narrative", .str x.narrative),
   ("artifactVersion", .str x.artifactVersion)] ++ Json.optMember "workflow" x.workflow PolicyWorkflow.toJson

def PolicyReviewRequest.toJson (x : PolicyReviewRequest) : Json := .obj <|
  [("operationId", .str x.operationID), ("baseRevision", .str x.baseRevision),
   ("candidateDigest", .str x.candidateDigest), ("workflowDigest", .str x.workflowDigest),
   ("decision", .str x.decision)] ++ Json.optText "comment" x.comment

def PolicyPublishRequest.toJson (x : PolicyPublishRequest) : Json := .obj <|
  [("operationId", .str x.operationID), ("baseRevision", .str x.baseRevision),
   ("candidateDigest", .str x.candidateDigest), ("workflowDigest", .str x.workflowDigest),
   ("reviewId", .str x.reviewID)]

def Decision.ofText : String → Option Decision
  | "approve" => some .approve
  | "request-changes" => some .requestChanges
  | _ => none

/-! ## Lifecycle commands -/

structure PolicyLifecycleRequest where
  operationID : String
  action : String
  baseRevision : String
  baseLifecycleRevision : String
  publicationID : String
  effectiveAt : String
  expiresAt : String
  supersedesPublicationID : String
  rationale : String
deriving DecidableEq

def PolicyLifecycleRequest.toJson (x : PolicyLifecycleRequest) : Json := .obj <|
  [("operationId", .str x.operationID), ("action", .str x.action), ("baseRevision", .str x.baseRevision),
   ("baseLifecycleRevision", .str x.baseLifecycleRevision), ("publicationId", .str x.publicationID)] ++
  Json.optText "effectiveAt" x.effectiveAt ++ Json.optText "expiresAt" x.expiresAt ++
  Json.optText "supersedesPublicationId" x.supersedesPublicationID ++ Json.optText "rationale" x.rationale

def LifecycleAction.ofText : String → Option LifecycleAction
  | "activate" => some .activate
  | "withdraw" => some .withdraw
  | _ => none

/-! ## Source status commands -/

structure PolicySourceStatusDraft where
  title : String
  narrative : String
  artifactVersion : String
deriving DecidableEq

structure PolicySourceStatusRequest where
  operationID : String
  baseRevision : String
  baseSourceRevision : String
  baseAuthorityRevision : String
  rationale : String
  action : String
  bindingID : String
  fallbackStatus : String
  managementMode : String
  observationID : String
  configurationID : String
  draft : Option PolicySourceStatusDraft
deriving DecidableEq

def PolicySourceStatusDraft.toJson (x : PolicySourceStatusDraft) : Json := .obj <|
  [("title", .str x.title), ("narrative", .str x.narrative), ("artifactVersion", .str x.artifactVersion)]

def PolicySourceStatusRequest.toJson (x : PolicySourceStatusRequest) : Json := .obj <|
  [("operationId", .str x.operationID), ("baseRevision", .str x.baseRevision),
   ("baseSourceRevision", .str x.baseSourceRevision), ("baseAuthorityRevision", .str x.baseAuthorityRevision),
   ("rationale", .str x.rationale), ("action", .str x.action)] ++
  Json.optText "bindingId" x.bindingID ++ Json.optText "fallbackStatus" x.fallbackStatus ++
  Json.optText "managementMode" x.managementMode ++ Json.optText "observationId" x.observationID ++
  Json.optText "configurationId" x.configurationID ++ Json.optMember "draft" x.draft PolicySourceStatusDraft.toJson

def AuthorityKind.ofText : String → Option AuthorityKind
  | "configure" => some .configure
  | "set-ownership" => some .setOwnership
  | "apply-external" => some .applyExternal
  | "import-draft" => some .importDraft
  | _ => none

def ManagementMode.ofText : String → Option ManagementMode
  | "desk-managed" => some .deskManaged
  | "externally-managed" => some .externallyManaged
  | _ => none

def FallbackStatus.ofText : String → Option FallbackStatus
  | "draft" => some .draft
  | "published" => some .published
  | _ => none

/-! ## Source commands -/

structure PolicySourceSyncRequest where
  operationID : String
  baseRevision : String
  baseSourceRevision : String
  action : String
  resourceID : String
  selectionContext : String
  consent : String
  frequencyMinutes : Int
  observationID : String
  candidateDigest : String
  workflowDigest : String
  comment : String
deriving DecidableEq

def PolicySourceSyncRequest.toJson (x : PolicySourceSyncRequest) : Json := .obj <|
  [("operationId", .str x.operationID), ("baseRevision", .str x.baseRevision),
   ("baseSourceRevision", .str x.baseSourceRevision), ("action", .str x.action)] ++
  Json.optText "resourceId" x.resourceID ++ Json.optText "selectionContext" x.selectionContext ++
  Json.optText "consent" x.consent ++
  (if x.frequencyMinutes = 0 then [] else [("frequencyMinutes", .num (Int.repr x.frequencyMinutes))]) ++
  Json.optText "observationId" x.observationID ++ Json.optText "candidateDigest" x.candidateDigest ++
  Json.optText "workflowDigest" x.workflowDigest ++ Json.optText "comment" x.comment

def SourceActionKind.ofText : String → Option SourceActionKind
  | "bind" => some .bind
  | "pause" => some .pause
  | "resume" => some .resume
  | "revoke" => some .revoke
  | "check-now" => some .checkNow
  | "keep-current" => some .keepCurrent
  | _ => none

/-! ## The digest of a request -/

/-- The digest of a request to a lifecycle or source status command. -/
def bodyRequestDigest (policy : String) (actor : PolicyActor) (body : Json) : String :=
  digestOf (Json.obj [("Policy", .str policy), ("Actor", actor.toJson), ("Body", body)]).marshal

end Desk
