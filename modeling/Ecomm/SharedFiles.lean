import Ecomm.FileBindings

/-! Calls of the files service side by side, when calls of the repositories and
of the storage may fail: `save` looks the row up before it writes, so what it
compares with may be out of date. -/

namespace Ecomm

open Concurrent FilesService

/-- What `save` makes of a row: it writes the columns in which the entity
differs from the row that it has looked up. -/
def FileColumns.savedOver (entity reread row : FileColumns) (now : Nat) : FileColumns :=
  if entity = reread then row
  else
    { ownerId := column entity.ownerId reread.ownerId row.ownerId
      entityId := column entity.entityId reread.entityId row.entityId
      key := column entity.key reread.key row.key
      contentType := column entity.contentType reread.contentType row.contentType
      size := column entity.size reread.size row.size
      status := column entity.status reread.status row.status
      visibility := column entity.visibility reread.visibility row.visibility
      createdAt := column entity.createdAt reread.createdAt row.createdAt
      updatedAt := updateDate entity.updatedAt reread.updatedAt now }

/-- The entity after `save`. -/
def FileColumns.savedEntity (entity reread : FileColumns) (now : Nat) : FileColumns :=
  if entity = reread then entity
  else { entity with updatedAt := updateDate entity.updatedAt reread.updatedAt now }

/-- `rows` lists every row that a file has had. -/
structure SharedFiles where
  state : FilesState
  rows : List (String × FileColumns)

/-- `reread` is the row that `save` finds, and `lost` the error of a call whose
effect took place although its answer did not arrive. -/
structure SharedChoice extends FilesChoice where
  reread : FileColumns
  lost : Option Thrown

def SharedChoice.answer (c : SharedChoice) : (o : FilesOp) → Except Thrown o.Ans →
    Except Thrown o.Ans
  | .randomUUID, r => r
  | _, r => c.lost.elim r .error

theorem SharedChoice.answer_cases (c : SharedChoice) {o : FilesOp} (r : Except Thrown o.Ans) :
    c.answer o r = r ∨ ∃ e, c.answer o r = .error e := by
  cases hlost : c.lost with
  | none => exact .inl (by cases o <;> simp [answer, hlost])
  | some e =>
    cases o with
    | randomUUID => exact .inl rfl
    | _ => exact .inr ⟨e, by simp [answer, hlost]⟩

namespace SharedFiles

def write (s : SharedFiles) (id : String) (row : FileColumns) : SharedFiles where
  state := { s.state with files := s.state.files.insert id row }
  rows := s.rows ++ [(id, row)]

def perform (s : SharedFiles) (c : SharedChoice) :
    (o : FilesOp) → Option (Except Thrown o.Ans × SharedFiles)
  | .insertFile draft =>
    match s.state.perform c.toFilesChoice (.insertFile draft) with
    | some (.ok file, _) => some (.ok file, s.write file.id file.toFileColumns)
    | some (.error e, _) => some (.error e, s)
    | none => none
  | .saveFile file =>
    match s.state.files.lookup file.id with
    | none =>
      let columns := file.saved none c.now
      some (.ok ⟨columns, file.id⟩, s.write file.id columns)
    | some row =>
      if (file.id, c.reread) ∈ s.rows then
        some (.ok ⟨file.savedEntity c.reread c.now, file.id⟩,
          s.write file.id (file.savedOver c.reread row c.now))
      else none
  | o => (s.state.perform c.toFilesChoice o).map (fun result => (result.1, ⟨result.2, s.rows⟩))

def exec (s : SharedFiles) (_ : Nat) (c : SharedChoice) (o : FilesOp) :
    Option (Except Thrown o.Ans × SharedFiles) :=
  let s : SharedFiles := ⟨{ s.state with objects := s.state.objects ++ c.appeared }, s.rows⟩
  match c.failure o with
  | some e => some (.error e, s)
  | none => (s.perform c o).map (fun result => (c.answer o result.1, result.2))

end SharedFiles

abbrev sharedFiles : Machine FilesOp FilesOp.Ans Thrown where
  State := SharedFiles
  Choice := SharedChoice
  exec := SharedFiles.exec

inductive FilesRequest where
  | createPresignedUpload (user : AuthUser) (dto : PresignFileDto)
  | completeUpload (dto : CompleteUploadDto) (user : AuthUser)
  | getFileById (fileId : String) (user : AuthUser)
  | getReadyOwnedFile (fileId ownerId : String)
  | getReadyFileForProduct (fileId : String) (user : AuthUser)

inductive FilesAnswer where
  | upload (upload : PresignedUpload)
  | view (view : FileView)
  | record (file : FileRecord)

def FilesRequest.program (s3 : S3Service) : FilesRequest → Files FilesAnswer
  | createPresignedUpload user dto => do
    let upload ← FilesService.createPresignedUpload s3 user dto
    pure (.upload upload)
  | completeUpload dto user => do
    let view ← FilesService.completeUpload s3 dto user
    pure (.view view)
  | getFileById fileId user => do
    let view ← FilesService.getFileById s3 fileId user
    pure (.view view)
  | getReadyOwnedFile fileId ownerId => do
    let file ← FilesService.getReadyOwnedFile fileId ownerId
    pure (.record file)
  | getReadyFileForProduct fileId user => do
    let file ← FilesService.getReadyFileForProduct fileId user
    pure (.record file)

def filesServing (s3 : S3Service) (s : SharedFiles) (requests : List FilesRequest) :
    Config sharedFiles FilesAnswer :=
  ⟨s, fun i => (requests[i]?).map (FilesRequest.program s3)⟩

/-! With the present row looked up, `save` is the one of the calls made one
after another. -/

theorem savedOver_current {entity row : FileColumns} (h : entity.updatedAt = row.updatedAt)
    (now : Nat) : entity.savedOver row row now = entity.saved (some row) now := by
  unfold FileColumns.savedOver FileColumns.saved
  by_cases he : entity = row
  · simp [he]
  · have hne : ¬ some row = some entity := fun hs => he (Option.some.inj hs).symm
    simp [he, hne, column_self, updateDate, h]

theorem savedEntity_current {entity row : FileColumns} (h : entity.updatedAt = row.updatedAt)
    (now : Nat) : entity.savedEntity row now = entity.saved (some row) now := by
  unfold FileColumns.savedEntity FileColumns.saved
  by_cases he : entity = row
  · simp [he]
  · have hne : ¬ some row = some entity := fun hs => he (Option.some.inj hs).symm
    simp [he, hne, updateDate, h]

/-- When no answer is lost and `save` finds the present row, of which the entity
was loaded, the shared store does what the store of single calls does. -/
theorem shared_exec_current {s : SharedFiles} {i : Nat} {c : SharedChoice} {o : FilesOp}
    (hlost : c.lost = none) (hsave : ∀ file, o = .saveFile file →
      s.state.files.lookup file.id = some c.reread ∧ file.updatedAt = c.reread.updatedAt ∧
        (file.id, c.reread) ∈ s.rows) :
    (s.exec i c o).map (fun result => (result.1, result.2.state)) =
      s.state.exec i c.toFilesChoice o := by
  have hanswer : ∀ r, c.answer o r = r := by
    intro r
    cases o <;> simp [SharedChoice.answer, hlost]
  unfold SharedFiles.exec FilesState.exec
  dsimp only
  cases hfail : c.failure o with
  | some e => rfl
  | none =>
    dsimp only
    simp only [hanswer]
    cases o with
    | saveFile file =>
      obtain ⟨hlookup, hupdated, hmem⟩ := hsave file rfl
      simp only [SharedFiles.perform, FilesState.perform, hlookup, hmem, if_true, Option.map_some,
        SharedFiles.write, savedOver_current hupdated,
        savedEntity_current hupdated]
    | insertFile draft =>
      simp only [SharedFiles.perform, FilesState.perform]
      split_ifs <;> rfl
    | findFile id | productExists id | objectExists key | presignPutObject key | randomUUID =>
      rfl
    | updateUser id fileId | updateProduct id fileId =>
      simp only [SharedFiles.perform, FilesState.perform]
      split_ifs <;> rfl

end Ecomm
