import Ecomm.FileSafety

/-! The requests to the files service keep to its rules, so they keep the files
safe side by side, and each is answered with a file that it may see. -/

namespace Ecomm

open Concurrent FilesService

def FilesRequest.Opaque : FilesRequest → Prop
  | createPresignedUpload user dto =>
    Ecomm.Opaque user.sub ∧ ∀ productId ∈ dto.productId, Ecomm.Opaque productId
  | completeUpload dto user =>
    Ecomm.Opaque user.sub ∧ ∀ productId ∈ dto.productId, Ecomm.Opaque productId
  | _ => True

/-- The row names the entity that `completeUpload` was asked to bind the file to. -/
def IsBound (dto : CompleteUploadDto) (user : AuthUser) (file : FileRecord) : Prop :=
  dto.bindTo = "avatar" ∧ file.entityId = some user.sub ∨
    dto.bindTo ≠ "avatar" ∧ ∃ productId, truthy dto.productId = some productId ∧
      file.entityId = some productId

/-- The answer that `file` allows. -/
def FilesRequest.Answers (s3 : S3Service) : FilesRequest → FilesAnswer → FileRecord → Prop
  | createPresignedUpload user dto, .upload upload, file =>
    upload.fileId = file.id ∧ upload.key = file.key ∧
      upload.publicUrl = s3.buildPublicUrl file.key ∧ Presigned user dto file.toFileColumns
  | completeUpload dto user, .view view, file =>
    view = toPublicView s3 file ∧ file.id = dto.fileId ∧ file.ownerId = user.sub ∧
      file.status = .ready ∧ IsBound dto user file
  | getFileById fileId user, .view view, file =>
    view = toPublicView s3 file ∧ file.id = fileId ∧
      (file.ownerId = user.sub ∨ "admin" ∈ user.roles ∨ "support" ∈ user.roles)
  | getReadyOwnedFile fileId ownerId, .record record, file =>
    record = file ∧ file.id = fileId ∧ file.ownerId = ownerId ∧ file.status = .ready
  | getReadyFileForProduct fileId user, .record record, file =>
    record = file ∧ file.id = fileId ∧ file.status = .ready ∧
      (file.ownerId = user.sub ∨ "admin" ∈ user.roles ∨
        "products:images:assign:any" ∈ user.scopes)
  | _, _, _ => False

/-- The request has seen the file of its answer. -/
def FilesRequest.Answered (s3 : S3Service) (request : FilesRequest) (answer : FilesAnswer)
    (g : Seen) : Prop := ∃ file ∈ g.files, request.Answers s3 answer file

section Requests

variable {U : AuthUser → PresignFileDto → Prop} {s3 : S3Service} {user : AuthUser} {g : Seen}

theorem seen_findByIdOrThrow {fileId : String} {Q : FileRecord → Seen → Prop}
    (h : ∀ file, file.id = fileId → Q file (g.found file)) :
    (findByIdOrThrow fileId).wp (filesRules U) Q (fun _ _ => True) g := by
  refine (Prog.wp_bind _ _ _ _ _).mpr ((Prog.wp_await _ _ _ _).mpr
    ⟨trivial, ?_, fun _ _ _ => trivial⟩)
  intro a g' hn
  cases a with
  | none => trivial
  | some file =>
    obtain ⟨hid, rfl⟩ := hn
    exact h file hid

theorem seen_assertCanPresign {kind : String} {Q : Unit → Seen → Prop} (h : Q () g) :
    (assertCanPresign user kind).wp (filesRules U) Q (fun _ _ => True) g := by
  unfold assertCanPresign
  split_ifs
  · exact h
  · exact h
  · trivial
  · trivial

theorem seen_validateUploadInput {dto : PresignFileDto} {Q : Unit → Seen → Prop}
    (h : ValidUpload dto → Q () g) :
    (validateUploadInput dto).wp (filesRules U) Q (fun _ _ => True) g := by
  unfold validateUploadInput
  split_ifs with htype hsize hbound hkind hproduct himage
  · trivial
  · trivial
  · trivial
  · cases htarget : truthy dto.productId with
    | none => trivial
    | some productId =>
      have hvalid : ValidUpload dto :=
        ⟨by simpa using htype, size_of_valid hsize hbound, .inr ⟨himage, productId, htarget⟩⟩
      refine (Prog.wp_bind _ _ _ _ _).mpr ((Prog.wp_await _ _ _ _).mpr
        ⟨trivial, ?_, fun _ _ _ => trivial⟩)
      intro found g' hn
      obtain rfl : g' = g := hn
      cases found with
      | false => trivial
      | true => exact h hvalid
  · have havatar : dto.kind = "avatar" := by
      by_contra hne
      exact hkind ⟨hne, himage⟩
    exact h ⟨by simpa using htype, size_of_valid hsize hbound, .inl havatar⟩
  · trivial
  · trivial

theorem seen_buildObjectKey {kind userId contentType : String} {productId : Option String}
    {Q : String → Seen → Prop}
    (havatar : kind = "avatar" → ∀ fileId, Q (avatarPrefix userId ++ fileId ++ "." ++
      (extensionByType contentType).getD "bin") g)
    (himage : kind ≠ "avatar" → ∀ target fileId, truthy productId = some target →
      Q (productPrefix target ++ fileId ++ "." ++ (extensionByType contentType).getD "bin") g) :
    (buildObjectKey kind userId contentType productId).wp (filesRules U) Q (fun _ _ => True) g := by
  refine (Prog.wp_bind _ _ _ _ _).mpr ((Prog.wp_await _ _ _ _).mpr
    ⟨trivial, ?_, fun _ _ _ => trivial⟩)
  intro fileId g' hn
  obtain rfl : g' = g := hn
  by_cases hkind : kind = "avatar"
  · rw [if_pos hkind]
    exact havatar hkind fileId
  · rw [if_neg hkind]
    cases htarget : truthy productId with
    | none => trivial
    | some target => exact himage hkind target fileId htarget

/-- The draft of a new file, whose key names its folder. -/
structure Uploads (user : AuthUser) (dto : PresignFileDto) (key : String) : Prop where
  extension : ∃ ext, extensionByType dto.contentType = some ext ∧
    ("." ++ ext).toList <:+ key.toList
  key : dto.kind = "avatar" ∧ startsWith key (avatarPrefix user.sub) = true ∨
    dto.kind = "product-image" ∧ ∃ productId, dto.productId = some productId ∧
      startsWith key (productPrefix productId) = true

def uploadDraft (user : AuthUser) (dto : PresignFileDto) (key : String) : FileDraft where
  ownerId := user.sub
  entityId := if dto.kind = "product-image" then dto.productId else none
  key := key
  contentType := dto.contentType
  size := dto.sizeBytes

theorem Uploads.presigned {dto : PresignFileDto} {key : String} (h : Uploads user dto key)
    (hvalid : ValidUpload dto) (now : Nat) :
    Presigned user dto ((uploadDraft user dto key).columns now) :=
  ⟨hvalid, rfl, rfl, rfl, h.extension, h.key⟩

theorem Uploads.filed {dto : PresignFileDto} {key : String} (h : Uploads user dto key)
    (hids : ∀ productId ∈ dto.productId, Opaque productId) (now : Nat) :
    Filed ((uploadDraft user dto key).columns now) := by
  intro id hid
  have hid : (if dto.kind = "product-image" then dto.productId else none) = some id := hid
  split at hid
  · next himage =>
    rcases h.key with ⟨havatar, _⟩ | ⟨_, productId, hproduct, hkey⟩
    · rw [havatar] at himage
      exact absurd himage (by decide)
    · obtain rfl := Option.some.inj (hproduct.symm.trans hid)
      exact .inr ⟨hids _ hproduct, hkey⟩
  · cases hid

theorem seen_createPresignedUpload {dto : PresignFileDto} (hU : U user dto)
    (hids : ∀ productId ∈ dto.productId, Opaque productId) :
    ((FilesRequest.createPresignedUpload user dto).program s3).wp (filesRules U)
      ((FilesRequest.createPresignedUpload user dto).Answered s3) (fun _ _ => True) g := by
  refine (Prog.wp_bind _ _ _ _ _).mpr ((Prog.wp_bind _ _ _ _ _).mpr (seen_assertCanPresign ?_))
  refine (Prog.wp_bind _ _ _ _ _).mpr (seen_validateUploadInput ?_)
  intro hvalid
  obtain ⟨ext, hext⟩ := extension_of_allowed hvalid.contentType
  -- the rest of the upload, under any key in the folder
  have hupload : ∀ key, Uploads user dto key → ((do
      let saved : FileRecord ← awaited (.insertFile (uploadDraft user dto key))
      let uploadUrl ← awaited (.presignPutObject saved.key)
      pure { fileId := saved.id, key := saved.key, uploadUrl, contentType := saved.contentType,
             publicUrl := s3.buildPublicUrl saved.key, uploadMethod := "PUT",
             expiresInSec := s3.defaultExpiresInSec } : Files PresignedUpload)).wp (filesRules U)
        (fun upload g' => (FilesRequest.createPresignedUpload user dto).Answered s3
          (.upload upload) g') (fun _ _ => True) g := by
    intro key hkey
    refine (Prog.wp_bind _ _ _ _ _).mpr ((Prog.wp_await _ _ _ _).mpr
      ⟨⟨user, dto, hU, fun now => ⟨hkey.presigned hvalid now, hkey.filed hids now⟩⟩, ?_,
        fun _ _ _ => trivial⟩)
    intro saved g' hn
    obtain ⟨⟨now, hcolumns⟩, rfl⟩ := hn
    refine (Prog.wp_bind _ _ _ _ _).mpr ((Prog.wp_await _ _ _ _).mpr
      ⟨trivial, ?_, fun _ _ _ => trivial⟩)
    intro url g'' hn
    obtain rfl : g'' = g.found saved := hn
    refine ⟨saved, List.mem_cons_self, rfl, rfl, rfl, ?_⟩
    rw [hcolumns]
    exact hkey.presigned hvalid now
  refine (Prog.wp_bind _ _ _ _ _).mpr (seen_buildObjectKey ?_ ?_)
  · intro havatar fileId
    refine hupload _ ⟨⟨ext, hext, ?_⟩, .inl ⟨havatar, objectKey_parts.1⟩⟩
    rw [hext]
    exact objectKey_parts.2
  · intro hkind target fileId htarget
    refine hupload _ ⟨⟨ext, hext, ?_⟩, ?_⟩
    · rw [hext]
      exact objectKey_parts.2
    · rcases hvalid.kind with havatar | ⟨himage, _⟩
      · exact absurd havatar hkind
      · exact .inr ⟨himage, target, truthy_eq htarget, objectKey_parts.1⟩

/-- `file` is the file that was found, as far as the upload fixed it. -/
structure Loaded (g : Seen) (found file : FileRecord) : Prop where
  seen : found ∈ g.files
  backed : g.Backed found.toFileColumns
  id : file.id = found.id
  same : SameFile file.toFileColumns found.toFileColumns
  status : file.status = .ready

theorem seen_checkObject {file : FileRecord} (hseen : file ∈ g.files) :
    (checkObject file).wp (filesRules U) (fun file' g' => Loaded g' file file')
      (fun _ _ => True) g := by
  unfold checkObject
  split
  · refine (Prog.wp_bind _ _ _ _ _).mpr ((Prog.wp_await _ _ _ _).mpr
      ⟨trivial, ?_, fun _ _ _ => trivial⟩)
    intro found g' hn
    cases found with
    | false => trivial
    | true =>
      obtain rfl : g' = g.stored file.key := hn
      exact ⟨hseen, .inr List.mem_cons_self, rfl, ⟨rfl, rfl, rfl, rfl, rfl, rfl⟩, rfl⟩
  · next hpending =>
    have hready : file.status = .ready := by
      cases hstatus : file.status with
      | pending => exact absurd hstatus hpending
      | ready => rfl
    exact ⟨hseen, .inl hready, rfl, .refl _, hready⟩

theorem seen_attachFileToDomain {dto : CompleteUploadDto} {found file : FileRecord}
    (hids : ∀ productId ∈ dto.productId, Opaque productId) (h : Loaded g found file)
    (howner : found.ownerId = user.sub) :
    (attachFileToDomain dto file user).wp (filesRules U) (fun file' g' => g' = g ∧
      Loaded g found file' ∧ Filed file'.toFileColumns ∧ IsBound dto user file')
      (fun _ _ => True) g := by
  unfold attachFileToDomain
  split
  · next hbind =>
    refine (Prog.wp_bind _ _ _ _ _).mpr ?_
    unfold assertAvatarKeyBelongsToOwner
    split
    · trivial
    · next hkey =>
      have hkey : startsWith file.key (avatarPrefix user.sub) = true := by simpa using hkey
      have hfound : startsWith found.key (avatarPrefix user.sub) = true := by rwa [← h.same.key]
      refine (Prog.wp_bind _ _ _ _ _).mpr ((Prog.wp_await _ _ _ _).mpr
        ⟨⟨found, h.seen, h.id.symm, h.backed, howner, hfound⟩, ?_, fun _ _ _ => trivial⟩)
      intro affected g' hn
      obtain rfl : g' = g := hn
      split
      · trivial
      · refine ⟨rfl, ⟨h.seen, h.backed, h.id, ⟨h.same.owner, h.same.key, h.same.contentType,
          h.same.size, h.same.visibility, h.same.createdAt⟩, h.status⟩, ?_, .inl ⟨hbind, rfl⟩⟩
        intro id hid
        obtain rfl := Option.some.inj hid
        exact .inl ⟨h.same.owner.trans howner, hkey⟩
  · next hbind =>
    cases htarget : truthy dto.productId with
    | none => trivial
    | some productId =>
      refine (Prog.wp_bind _ _ _ _ _).mpr ?_
      unfold assertProductKeyMatchesTarget
      split
      · trivial
      · next hkey =>
        have hkey : startsWith file.key (productPrefix productId) = true := by simpa using hkey
        have hfound : startsWith found.key (productPrefix productId) = true := by
          rwa [← h.same.key]
        have hslash : Opaque productId := hids productId (truthy_eq htarget)
        refine (Prog.wp_bind _ _ _ _ _).mpr ((Prog.wp_await _ _ _ _).mpr
          ⟨⟨found, h.seen, h.id.symm, h.backed, hslash, hfound⟩, ?_, fun _ _ _ => trivial⟩)
        intro affected g' hn
        obtain rfl : g' = g := hn
        split
        · trivial
        · refine ⟨rfl, ⟨h.seen, h.backed, h.id, ⟨h.same.owner, h.same.key, h.same.contentType,
            h.same.size, h.same.visibility, h.same.createdAt⟩, h.status⟩, ?_,
            .inr ⟨hbind, productId, htarget, rfl⟩⟩
          intro id hid
          obtain rfl := Option.some.inj hid
          exact .inr ⟨hslash, hkey⟩

theorem seen_completeUpload {dto : CompleteUploadDto}
    (hids : ∀ productId ∈ dto.productId, Opaque productId) :
    ((FilesRequest.completeUpload dto user).program s3).wp (filesRules U)
      ((FilesRequest.completeUpload dto user).Answered s3) (fun _ _ => True) g := by
  refine (Prog.wp_bind _ _ _ _ _).mpr ((Prog.wp_bind _ _ _ _ _).mpr (seen_findByIdOrThrow ?_))
  intro found hid
  refine (Prog.wp_bind _ _ _ _ _).mpr ?_
  unfold assertOwner
  split
  · trivial
  · next howner =>
    have howner : found.ownerId = user.sub := by simpa using howner
    refine (Prog.wp_bind _ _ _ _ _).mpr (Prog.wp_mono (seen_checkObject List.mem_cons_self) ?_
      (fun _ _ _ => trivial))
    intro file g₁ hfile
    refine (Prog.wp_bind _ _ _ _ _).mpr (Prog.wp_mono
      (seen_attachFileToDomain hids hfile howner) ?_ (fun _ _ _ => trivial))
    rintro bound g₂ ⟨rfl, hbound, hfiled, htarget⟩
    refine (Prog.wp_bind _ _ _ _ _).mpr ((Prog.wp_await _ _ _ _).mpr ⟨⟨hbound.status, hfiled,
      found, hbound.seen, hbound.id, hbound.same, hbound.backed⟩, ?_, fun _ _ _ => trivial⟩)
    rintro saved g₃ ⟨hsavedId, hstatus, hentity, hsame, rfl⟩
    refine ⟨saved, List.mem_cons_self, rfl, hsavedId.trans (hbound.id.trans hid),
      (hsame.trans hbound.same).owner.trans howner, hstatus.trans hbound.status, ?_⟩
    rwa [IsBound, hentity]

theorem seen_getFileById {fileId : String} :
    ((FilesRequest.getFileById fileId user).program s3).wp (filesRules U)
      ((FilesRequest.getFileById fileId user).Answered s3) (fun _ _ => True) g := by
  refine (Prog.wp_bind _ _ _ _ _).mpr ((Prog.wp_bind _ _ _ _ _).mpr (seen_findByIdOrThrow ?_))
  intro file hid
  refine (Prog.wp_bind _ _ _ _ _).mpr ?_
  unfold assertOwnerOrStaff
  dsimp only
  split
  · trivial
  · next hallowed =>
    refine ⟨file, List.mem_cons_self, rfl, hid, ?_⟩
    by_contra hno
    apply hallowed
    simpa using hno

theorem seen_getReadyOwnedFile {fileId ownerId : String} :
    ((FilesRequest.getReadyOwnedFile fileId ownerId).program s3).wp (filesRules U)
      ((FilesRequest.getReadyOwnedFile fileId ownerId).Answered s3) (fun _ _ => True) g := by
  refine (Prog.wp_bind _ _ _ _ _).mpr ((Prog.wp_bind _ _ _ _ _).mpr (seen_findByIdOrThrow ?_))
  intro file hid
  split_ifs with howner hready
  · trivial
  · trivial
  · exact ⟨file, List.mem_cons_self, rfl, hid, by simpa using howner, by simpa using hready⟩

theorem seen_getReadyFileForProduct {fileId : String} :
    ((FilesRequest.getReadyFileForProduct fileId user).program s3).wp (filesRules U)
      ((FilesRequest.getReadyFileForProduct fileId user).Answered s3) (fun _ _ => True) g := by
  refine (Prog.wp_bind _ _ _ _ _).mpr ((Prog.wp_bind _ _ _ _ _).mpr (seen_findByIdOrThrow ?_))
  intro file hid
  dsimp only
  split_ifs with hready howner hany
  · trivial
  · exact ⟨file, List.mem_cons_self, rfl, hid, by simpa using hready, .inl howner⟩
  · refine ⟨file, List.mem_cons_self, rfl, hid, by simpa using hready, .inr ?_⟩
    simpa using hany
  · trivial

theorem seen_filesRequest {request : FilesRequest} (hids : request.Opaque)
    (hU : ∀ user dto, request = .createPresignedUpload user dto → U user dto) :
    (request.program s3).wp (filesRules U) (request.Answered s3) (fun _ _ => True) g := by
  cases request with
  | createPresignedUpload user dto => exact seen_createPresignedUpload (hU user dto rfl) hids.2
  | completeUpload dto user => exact seen_completeUpload hids.2
  | getFileById fileId user => exact seen_getFileById
  | getReadyOwnedFile fileId ownerId => exact seen_getReadyOwnedFile
  | getReadyFileForProduct fileId user => exact seen_getReadyFileForProduct

end Requests

section Runs

variable {s3 : S3Service} {s : SharedFiles} {requests : List FilesRequest}
  {es : List (Nat × SharedChoice)} {c : Config sharedFiles FilesAnswer}

def Asked (requests : List FilesRequest) (user : AuthUser) (dto : PresignFileDto) : Prop :=
  .createPresignedUpload user dto ∈ requests

theorem filesSafe_start {U : AuthUser → PresignFileDto → Prop} (hs : NoUploads s.state)
    (hrows : s.rows = []) : FilesSafe U s where
  listed id row hrow := by
    rw [hs.files] at hrow
    cases hrow
  known id row hmem := by
    rw [hrows] at hmem
    cases hmem
  uploaded id row hrow := by
    rw [hs.files] at hrow
    cases hrow
  stored id row hrow := by
    rw [hs.files] at hrow
    cases hrow
  distinct id id' row row' hrow := by
    rw [hs.files] at hrow
    cases hrow
  avatar userId link fileId huser hlink := by
    rw [hs.users userId link huser] at hlink
    cases hlink
  image productId link fileId hproduct hlink := by
    rw [hs.products productId link hproduct] at hlink
    cases hlink

/-- Every request has seen the file that it is answered with. -/
def answeredBy (s3 : S3Service) (requests : List FilesRequest) (i : Nat) (answer : FilesAnswer)
    (g : Seen) : Prop := ∀ request, requests[i]? = some request → request.Answered s3 answer g

theorem files_follows (hs : NoUploads s.state) (hrows : s.rows = [])
    (hids : ∀ request ∈ requests, request.Opaque)
    (h : (filesServing s3 s requests).run es = some c) :
    ∃ γ, Follows (filesRules (Asked requests)) (FilesKept (Asked requests))
      (answeredBy s3 requests) (fun _ _ _ => True) c γ := by
  have hstart : Follows (filesRules (Asked requests)) (FilesKept (Asked requests))
      (answeredBy s3 requests) (fun _ _ _ => True) (filesServing s3 s requests)
      (fun _ => ⟨[], []⟩) := by
    refine ⟨⟨filesSafe_start hs hrows, fun i file hmem => ?_, fun i key hmem => ?_⟩, ?_⟩
    · exact absurd hmem List.not_mem_nil
    · exact absurd hmem List.not_mem_nil
    intro i p hp
    obtain ⟨request, hrequest, rfl⟩ := Option.map_eq_some_iff.mp hp
    have hmem : request ∈ requests := List.mem_of_getElem? hrequest
    refine Prog.wp_mono (seen_filesRequest (hids request hmem) ?_) ?_ (fun _ _ _ => trivial)
    · rintro user dto rfl
      exact hmem
    · intro answer g hanswer request' hrequest'
      obtain rfl := Option.some.inj (hrequest.symm.trans hrequest')
      exact hanswer
  obtain ⟨γ, hγ, _⟩ := (filesRules_sound (Asked requests)).run hstart (Config.meets_always _ _) h
  exact ⟨γ, hγ⟩

/-- Whatever is asked side by side, whichever calls fail or lose their answers,
and whichever rows `save` finds, the files are safe and no file is named by two. -/
theorem files_safe (s3 : S3Service) (hs : NoUploads s.state) (hrows : s.rows = [])
    (hids : ∀ request ∈ requests, request.Opaque)
    (h : (filesServing s3 s requests).run es = some c) :
    FilesSafe (Asked requests) c.shared ∧
      (∀ fileId a b, Linked c.shared.state fileId a → Linked c.shared.state fileId b → a = b) ∧
      ∀ fileId row id id', c.shared.state.files.lookup fileId = some row →
        Linked c.shared.state fileId id → row.entityId = some id' → id' = id := by
  obtain ⟨γ, hγ⟩ := files_follows hs hrows hids h
  have hsafe := hγ.inv.safe
  exact ⟨hsafe, fun _ _ _ ha hb => hsafe.linked_unique ha hb,
    fun _ _ _ _ hrow hlinked hentity => hsafe.linked_entity hlinked hrow hentity⟩

/-- Every answer is about a file that the request may see, is true of the file's
present row in all that the upload fixed, and a file that it calls ready is in the storage. -/
theorem files_answered (s3 : S3Service) (hs : NoUploads s.state) (hrows : s.rows = [])
    (hids : ∀ request ∈ requests, request.Opaque)
    (h : (filesServing s3 s requests).run es = some c) {i : Nat} {request : FilesRequest}
    (hi : requests[i]? = some request) {answer : FilesAnswer}
    (hanswer : c.thread i = some (.ret answer)) :
    ∃ file row, request.Answers s3 answer file ∧ Filed file.toFileColumns ∧
      c.shared.state.files.lookup file.id = some row ∧ SameFile file.toFileColumns row ∧
      (file.status = .ready → row.status = .ready ∧ row.key ∈ c.shared.state.objects) := by
  obtain ⟨γ, hγ⟩ := files_follows hs hrows hids h
  obtain ⟨file, hseen, hfile⟩ := hγ.thread i _ hanswer request hi
  have hknown := hγ.inv.files i file hseen
  obtain ⟨row, hrow, hsame, hready⟩ := hknown.current
  exact ⟨file, row, hfile, hknown.filed, hrow, hsame, fun hstatus =>
    ⟨hready hstatus, hγ.inv.safe.stored _ row hrow (hready hstatus)⟩⟩

end Runs

def annFiles : List FilesRequest :=
  [.createPresignedUpload annUser ⟨"image/png", .finite 5, "avatar", none⟩,
    .completeUpload annAvatar annUser, .getReadyOwnedFile "file-1" "ann",
    .completeUpload annAvatar annUser]

def annPending : FileColumns where
  ownerId := "ann"
  entityId := none
  key := "users/ann/avatars/1.png"
  contentType := "image/png"
  size := .finite 5
  status := .pending
  visibility := .privateFile
  createdAt := 5
  updatedAt := 5

/-- The upload is completed twice at a time: the first `save` loses its answer,
and the second one compares with the pending row. -/
def annFileSteps : List (Nat × SharedChoice) :=
  let choice (keys : List String) (id uuid : String) (lost : Option Thrown) : SharedChoice :=
    ⟨⟨keys, none, none, id, uuid, 5, "https://upload"⟩, annPending, lost⟩
  let idle := choice [] "" "" none
  [(0, choice [] "" "1" none), (0, choice [] "file-1" "" none), (0, idle), (1, idle), (3, idle),
    (1, choice ["users/ann/avatars/1.png"] "" "" none), (3, idle), (3, idle), (1, idle),
    (1, choice [] "" "" (some (.error "timeout"))), (2, idle), (3, idle)]

theorem noUploads_penUser : NoUploads penUser where
  files _ := rfl
  users userId link huser := by
    have hmem : (⟨userId, link⟩ : Sigma fun _ : String => UserLink) ∈ [⟨"ann", ⟨none, 0⟩⟩] :=
      AList.mem_lookup_iff.mp huser
    cases List.mem_singleton.mp hmem
    rfl
  products productId link hproduct := by cases hproduct

theorem annFiles_opaque : ∀ request ∈ annFiles, request.Opaque := by
  intro request hmem
  simp only [annFiles, List.mem_cons, List.not_mem_nil, or_false] at hmem
  have hann : Opaque annUser.sub := by decide
  rcases hmem with rfl | rfl | rfl | rfl
  · exact ⟨hann, fun _ hproduct => by cases hproduct⟩
  · exact ⟨hann, fun _ hproduct => by cases hproduct⟩
  · trivial
  · exact ⟨hann, fun _ hproduct => by cases hproduct⟩

theorem files_safe_ann : ∃ c, (filesServing penS3 ⟨penUser, []⟩ annFiles).run annFileSteps = some c ∧
    (c.shared.state.users.lookup "ann").bind UserLink.avatarFileId = some "file-1" ∧
    FilesSafe (Asked annFiles) c.shared := by
  have hrun : ((filesServing penS3 ⟨penUser, []⟩ annFiles).run annFileSteps).map
      (fun c => (c.shared.state.users.lookup "ann").bind UserLink.avatarFileId) =
        some (some "file-1") := by decide +kernel
  obtain ⟨c, hc, hlink⟩ := Option.map_eq_some_iff.mp hrun
  exact ⟨c, hc, hlink, (files_safe penS3 noUploads_penUser rfl annFiles_opaque hc).1⟩

def recordOf (c : Config sharedFiles FilesAnswer) (i : Nat) : Option FileRecord :=
  match c.thread i with
  | some (.ret (.record file)) => some file
  | _ => none

theorem files_answered_ann : ∃ c file row,
    (filesServing penS3 ⟨penUser, []⟩ annFiles).run annFileSteps = some c ∧
    recordOf c 2 = some file ∧ c.shared.state.files.lookup "file-1" = some row ∧
    SameFile file.toFileColumns row ∧ row.status = .ready ∧
    row.key ∈ c.shared.state.objects := by
  have hrun : (((filesServing penS3 ⟨penUser, []⟩ annFiles).run annFileSteps).bind
      (fun c => recordOf c 2)).isSome = true := by decide +kernel
  obtain ⟨file, hfile⟩ := Option.isSome_iff_exists.mp hrun
  obtain ⟨c, hc, hrecord⟩ := Option.bind_eq_some_iff.mp hfile
  have hanswer : c.thread 2 = some (.ret (.record file)) := by
    unfold recordOf at hrecord
    split at hrecord
    · next record hthread =>
      obtain rfl := Option.some.inj hrecord
      exact hthread
    · cases hrecord
  obtain ⟨seen, row, hseen, _, hrow, hsame, hready⟩ :=
    files_answered penS3 noUploads_penUser rfl annFiles_opaque hc (i := 2) rfl hanswer
  obtain ⟨rfl, hid, _, hstatus⟩ := hseen
  rw [hid] at hrow
  exact ⟨c, file, row, hc, hrecord, hrow, hsame, hready hstatus⟩

end Ecomm
