import Mathlib.Data.List.AList
import Ecomm.OrdersService
import Ecomm.Json

/-! `FilesService`: presigned uploads of images, and binding the uploaded file
to the user or to a product. Identifiers are opaque text here. -/

namespace Ecomm

open Concurrent

deriving instance DecidableEq for JsNumber

inductive FileStatus where
  | pending
  | ready
  deriving DecidableEq

inductive FileVisibility where
  | privateFile
  | publicFile
  deriving DecidableEq

structure FileColumns where
  ownerId : String
  entityId : Option String
  key : String
  contentType : String
  size : JsNumber
  status : FileStatus
  visibility : FileVisibility
  createdAt : Nat
  updatedAt : Nat
  deriving DecidableEq

structure FileRecord extends FileColumns where
  id : String

structure UserLink where
  avatarFileId : Option String
  updatedAt : Nat
  deriving DecidableEq

structure ProductLink where
  imageFileId : Option String
  updatedAt : Nat
  deriving DecidableEq

structure PresignFileDto where
  contentType : String
  sizeBytes : JsNumber
  kind : String
  productId : Option String

structure CompleteUploadDto where
  fileId : String
  bindTo : String
  productId : Option String

/-- A new entity, before `save` gives it an id. -/
structure FileDraft where
  ownerId : String
  entityId : Option String
  key : String
  contentType : String
  size : JsNumber

def FileDraft.columns (draft : FileDraft) (now : Nat) : FileColumns where
  ownerId := draft.ownerId
  entityId := draft.entityId
  key := draft.key
  contentType := draft.contentType
  size := draft.size
  status := .pending
  visibility := .privateFile
  createdAt := now
  updatedAt := now

/-- What `save` makes of the columns of an entity that was loaded as `old`. -/
def FileColumns.saved (columns : FileColumns) (old : Option FileColumns) (now : Nat) :
    FileColumns :=
  if old = some columns then columns else { columns with updatedAt := now }

inductive FilesOp where
  | findFile (id : String)
  | productExists (id : String)
  | insertFile (draft : FileDraft)
  | saveFile (file : FileRecord)
  | updateUser (id : String) (avatarFileId : String)
  | updateProduct (id : String) (imageFileId : String)
  | objectExists (key : String)
  | presignPutObject (key : String)
  | randomUUID

@[reducible] def FilesOp.Ans : FilesOp → Type
  | findFile _ => Option FileRecord
  | productExists _ => Bool
  | insertFile _ => FileRecord
  | saveFile _ => FileRecord
  | updateUser _ _ => Nat
  | updateProduct _ _ => Nat
  | objectExists _ => Bool
  | presignPutObject _ => String
  | randomUUID => String

abbrev Files := Prog FilesOp FilesOp.Ans Thrown

/-- What the environment brings to a step: objects that have appeared in the
storage, an error with which a repository call or a call of the storage fails,
generated ids, the clock of the server and a signed URL. -/
structure FilesChoice where
  appeared : List String
  fault : Option Thrown
  outage : Option Thrown
  id : String
  uuid : String
  now : Nat
  url : String

def FilesChoice.failure (c : FilesChoice) : FilesOp → Option Thrown
  | .objectExists _ => c.outage
  | .presignPutObject _ => c.outage
  | .randomUUID => none
  | _ => c.fault

structure FilesState where
  users : AList (fun _ : String => UserLink)
  products : AList (fun _ : String => ProductLink)
  files : AList (fun _ : String => FileColumns)
  objects : List String

namespace FilesState

def keyTaken (s : FilesState) (key : String) : Bool := s.files.entries.any (fun e => e.2.key = key)

/-- The effect of an operation that the environment does not make fail. The id
of a new row is not in use. -/
def perform (s : FilesState) (c : FilesChoice) :
    (o : FilesOp) → Option (Except Thrown o.Ans × FilesState)
  | .findFile id => some (.ok ((s.files.lookup id).map (fun columns => ⟨columns, id⟩)), s)
  | .productExists id => some (.ok (s.products.lookup id).isSome, s)
  | .insertFile draft =>
    if (s.files.lookup c.id).isSome then none
    else if s.keyTaken draft.key then some (.error (.sql .uniqueViolation), s)
    else if (s.users.lookup draft.ownerId).isNone then some (.error (.sql .foreignKeyViolation), s)
    else
      some (.ok ⟨draft.columns c.now, c.id⟩,
        { s with files := s.files.insert c.id (draft.columns c.now) })
  | .saveFile file =>
    let columns := file.saved (s.files.lookup file.id) c.now
    some (.ok ⟨columns, file.id⟩, { s with files := s.files.insert file.id columns })
  | .updateUser id avatarFileId =>
    if (s.users.lookup id).isNone then some (.ok 0, s)
    else if (s.files.lookup avatarFileId).isNone then some (.error (.sql .foreignKeyViolation), s)
    else some (.ok 1, { s with users := s.users.insert id ⟨some avatarFileId, c.now⟩ })
  | .updateProduct id imageFileId =>
    if (s.products.lookup id).isNone then some (.ok 0, s)
    else if (s.files.lookup imageFileId).isNone then some (.error (.sql .foreignKeyViolation), s)
    else some (.ok 1, { s with products := s.products.insert id ⟨some imageFileId, c.now⟩ })
  | .objectExists key => some (.ok (key ∈ s.objects), s)
  | .presignPutObject _ => some (.ok c.url, s)
  | .randomUUID => some (.ok c.uuid, s)

def exec (s : FilesState) (_ : Nat) (c : FilesChoice) (o : FilesOp) :
    Option (Except Thrown o.Ans × FilesState) :=
  let s : FilesState := { s with objects := s.objects ++ c.appeared }
  match c.failure o with
  | some e => some (.error e, s)
  | none => s.perform c o

end FilesState

abbrev fileStore : Machine FilesOp FilesOp.Ans Thrown where
  State := FilesState
  Choice := FilesChoice
  exec := FilesState.exec

structure S3Service where
  bucket : String
  region : String
  cloudfrontBaseUrl : Option String
  defaultExpiresInSec : JsNumber

def S3Service.buildPublicUrl (s3 : S3Service) (key : String) : String :=
  match truthy s3.cloudfrontBaseUrl with
  | some base => base ++ "/" ++ key
  | none => "https://" ++ s3.bucket ++ ".s3." ++ s3.region ++ ".amazonaws.com/" ++ key

structure PresignedUpload where
  fileId : String
  key : String
  uploadUrl : String
  contentType : String
  publicUrl : String
  uploadMethod : String
  expiresInSec : JsNumber

structure FileView where
  file : FileRecord
  publicUrl : String

namespace FilesService

def awaited (o : FilesOp) : Files o.Ans := Prog.await o

def allowedContentTypes : List String := ["image/jpeg", "image/png", "image/webp"]

def extensionByType : String → Option String
  | "image/jpeg" => some "jpg"
  | "image/png" => some "png"
  | "image/webp" => some "webp"
  | _ => none

def maxImageBytes : Nat := 5 * 1024 * 1024

def assertCanPresign (user : AuthUser) (kind : String) : Files Unit :=
  if ¬ user.roles.any (fun role => ["user", "support", "admin"].contains role) then
    throw (.forbidden "Role is not allowed to upload files")
  else if user.roles.contains "admin" then pure ()
  else if user.scopes.contains "files:write" ||
      (kind = "product-image" && user.scopes.contains "products:images:write") then pure ()
  else throw (.forbidden "Insufficient scope for file upload")

/-- `Number.isInteger(sizeBytes) && sizeBytes > 0`. -/
def isPositiveInteger : JsNumber → Bool
  | .finite x => x.den = 1 && 0 < x
  | _ => false

def exceeds (size : JsNumber) (bound : Nat) : Bool :=
  match size with
  | .finite x => bound < x
  | .infinite => true
  | .nan => false

def validateUploadInput (dto : PresignFileDto) : Files Unit :=
  if ¬ allowedContentTypes.contains dto.contentType then
    throw (.badRequest ("Unsupported contentType. Allowed: " ++
      String.intercalate ", " allowedContentTypes))
  else if ¬ isPositiveInteger dto.sizeBytes then
    throw (.badRequest "sizeBytes must be a positive integer")
  else if exceeds dto.sizeBytes maxImageBytes then
    throw (.badRequest ("Max file size is " ++ toString maxImageBytes ++ " bytes"))
  else if dto.kind ≠ "avatar" ∧ dto.kind ≠ "product-image" then
    throw (.badRequest "Unsupported kind")
  else if dto.kind = "avatar" ∧ (truthy dto.productId).isSome then
    throw (.badRequest "productId is not allowed for avatar uploads")
  else if dto.kind = "product-image" then
    match truthy dto.productId with
    | none => throw (.badRequest "productId is required for product-image uploads")
    | some productId => do
      let productExists ← awaited (.productExists productId)
      if productExists then pure () else throw (.notFound "Product not found")
  else pure ()

def avatarPrefix (userId : String) : String := "users/" ++ userId ++ "/avatars/"

def productPrefix (productId : String) : String := "products/" ++ productId ++ "/images/"

def buildObjectKey (kind userId contentType : String) (productId : Option String) :
    Files String := do
  let ext := (extensionByType contentType).getD "bin"
  let fileId ← awaited .randomUUID
  if kind = "avatar" then pure (avatarPrefix userId ++ fileId ++ "." ++ ext)
  else
    match truthy productId with
    | none => throw (.badRequest "productId is required for product-image uploads")
    | some productId => pure (productPrefix productId ++ fileId ++ "." ++ ext)

def createPresignedUpload (s3 : S3Service) (user : AuthUser) (dto : PresignFileDto) :
    Files PresignedUpload := do
  assertCanPresign user dto.kind
  validateUploadInput dto
  let key ← buildObjectKey dto.kind user.sub dto.contentType dto.productId
  let saved : FileRecord ← awaited (.insertFile
    { ownerId := user.sub
      entityId := if dto.kind = "product-image" then dto.productId else none
      key
      contentType := dto.contentType
      size := dto.sizeBytes })
  let uploadUrl ← awaited (.presignPutObject saved.key)
  pure
    { fileId := saved.id
      key := saved.key
      uploadUrl
      contentType := saved.contentType
      publicUrl := s3.buildPublicUrl saved.key
      uploadMethod := "PUT"
      expiresInSec := s3.defaultExpiresInSec }

def findByIdOrThrow (fileId : String) : Files FileRecord := do
  match ← awaited (.findFile fileId) with
  | none => throw (.notFound "File not found")
  | some file => pure file

def assertOwner (file : FileRecord) (user : AuthUser) : Files Unit :=
  if file.ownerId ≠ user.sub then throw (.forbidden "File does not belong to current user")
  else pure ()

/-- `key.startsWith(expectedPrefix)`. -/
def startsWith (key expectedPrefix : String) : Bool := expectedPrefix.toList.isPrefixOf key.toList

def assertAvatarKeyBelongsToOwner (key userId : String) : Files Unit :=
  if ¬ startsWith key (avatarPrefix userId) then
    throw (.badRequest "File key does not match avatar binding")
  else pure ()

def assertProductKeyMatchesTarget (key productId : String) : Files Unit :=
  if ¬ startsWith key (productPrefix productId) then
    throw (.badRequest "File key does not match product-image binding")
  else pure ()

def attachFileToDomain (dto : CompleteUploadDto) (file : FileRecord) (user : AuthUser) :
    Files FileRecord :=
  if dto.bindTo = "avatar" then do
    assertAvatarKeyBelongsToOwner file.key user.sub
    let affected ← awaited (.updateUser user.sub file.id)
    if affected = 0 then throw (.notFound "User not found")
    else pure { file with entityId := some user.sub }
  else
    match truthy dto.productId with
    | none => throw (.badRequest "productId is required for product-image binding")
    | some productId => do
      assertProductKeyMatchesTarget file.key productId
      let affected ← awaited (.updateProduct productId file.id)
      if affected = 0 then throw (.notFound "Product not found")
      else pure { file with entityId := some productId }

/-- A pending file becomes ready once its object is in the storage. -/
def checkObject (file : FileRecord) : Files FileRecord :=
  if file.status = .pending then do
    let found ← awaited (.objectExists file.key)
    if found then pure { file with status := .ready }
    else throw (.badRequest "File object is missing in storage")
  else pure file

def completeUpload (s3 : S3Service) (dto : CompleteUploadDto) (user : AuthUser) :
    Files FileView := do
  let file ← findByIdOrThrow dto.fileId
  assertOwner file user
  let file ← checkObject file
  let file ← attachFileToDomain dto file user
  let saved : FileRecord ← awaited (.saveFile file)
  pure ⟨saved, s3.buildPublicUrl saved.key⟩

def toPublicView (s3 : S3Service) (file : FileRecord) : FileView := ⟨file, s3.buildPublicUrl file.key⟩

def assertOwnerOrStaff (file : FileRecord) (user : AuthUser) : Files Unit :=
  let isOwner := file.ownerId = user.sub
  let isStaff := user.roles.contains "admin" || user.roles.contains "support"
  if ¬ isOwner ∧ ¬ isStaff then throw (.forbidden "Access denied") else pure ()

def getFileById (s3 : S3Service) (fileId : String) (user : AuthUser) : Files FileView := do
  let file ← findByIdOrThrow fileId
  assertOwnerOrStaff file user
  pure (toPublicView s3 file)

def getReadyOwnedFile (fileId ownerId : String) : Files FileRecord := do
  let file ← findByIdOrThrow fileId
  if file.ownerId ≠ ownerId then throw (.forbidden "You can use only your own uploaded files")
  else if file.status ≠ .ready then throw (.badRequest "File upload is not completed")
  else pure file

def getReadyFileForProduct (fileId : String) (user : AuthUser) : Files FileRecord := do
  let file ← findByIdOrThrow fileId
  if file.status ≠ .ready then throw (.badRequest "File upload is not completed")
  else if file.ownerId = user.sub then pure file
  else
    let canUseAny := user.roles.contains "admin" || user.scopes.contains "products:images:assign:any"
    if ¬ canUseAny then throw (.forbidden "Cannot attach another user file")
    else pure file

end FilesService

end Ecomm
