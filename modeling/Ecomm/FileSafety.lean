import Ecomm.SharedFiles

/-! Requests to the files service side by side: the rows of a file agree on what
the upload fixed, and users and products name only files of their own. -/

namespace Ecomm

open Concurrent FilesService

structure SameFile (a b : FileColumns) : Prop where
  owner : a.ownerId = b.ownerId
  key : a.key = b.key
  contentType : a.contentType = b.contentType
  size : a.size = b.size
  visibility : a.visibility = b.visibility
  createdAt : a.createdAt = b.createdAt

namespace SameFile

variable {a b c : FileColumns}

theorem refl (a : FileColumns) : SameFile a a := ⟨rfl, rfl, rfl, rfl, rfl, rfl⟩

theorem symm (h : SameFile a b) : SameFile b a :=
  ⟨h.owner.symm, h.key.symm, h.contentType.symm, h.size.symm, h.visibility.symm, h.createdAt.symm⟩

theorem trans (h : SameFile a b) (h' : SameFile b c) : SameFile a c :=
  ⟨h.owner.trans h'.owner, h.key.trans h'.key, h.contentType.trans h'.contentType,
    h.size.trans h'.size, h.visibility.trans h'.visibility, h.createdAt.trans h'.createdAt⟩

end SameFile

/-- The file is in the folder of the user or the product `id`. -/
def InFolder (file : FileColumns) (id : String) : Prop :=
  (file.ownerId = id ∧ startsWith file.key (avatarPrefix id) = true) ∨
    (Opaque id ∧ startsWith file.key (productPrefix id) = true)

theorem InFolder.unique {file : FileColumns} {a b : String} (ha : InFolder file a)
    (hb : InFolder file b) : a = b := by
  rcases ha with ⟨howner, ha⟩ | ⟨hslash, ha⟩
  · rcases hb with ⟨howner', _⟩ | ⟨_, hb⟩
    · exact howner.symm.trans howner'
    · exact (avatar_ne_product ha hb).elim
  · rcases hb with ⟨_, hb⟩ | ⟨hslash', hb⟩
    · exact (avatar_ne_product hb ha).elim
    · exact productPrefix_inj hslash hslash' ha hb

theorem InFolder.congr {a b : FileColumns} {id : String} (h : InFolder a id) (hab : SameFile a b) :
    InFolder b id := by
  rwa [InFolder, ← hab.owner, ← hab.key]

/-- The entity of the row, if it has one, is the one of the folder. -/
def Filed (file : FileColumns) : Prop := ∀ id, file.entityId = some id → InFolder file id

/-- `seen` is a row that the file `id` has or had. -/
structure Known (s : SharedFiles) (id : String) (seen : FileColumns) : Prop where
  current : ∃ row, s.state.files.lookup id = some row ∧ SameFile seen row ∧
    (seen.status = .ready → row.status = .ready)
  filed : Filed seen

/-- `U` are the uploads that were asked for. -/
structure FilesSafe (U : AuthUser → PresignFileDto → Prop) (s : SharedFiles) : Prop where
  listed : ∀ id row, s.state.files.lookup id = some row → (id, row) ∈ s.rows
  known : ∀ id row, (id, row) ∈ s.rows → Known s id row
  uploaded : ∀ id row, s.state.files.lookup id = some row → ∃ user dto, U user dto ∧
    Presigned user dto row
  stored : ∀ id row, s.state.files.lookup id = some row → row.status = .ready →
    row.key ∈ s.state.objects
  distinct : ∀ id id' row row', s.state.files.lookup id = some row →
    s.state.files.lookup id' = some row' → row.key = row'.key → id = id'
  avatar : ∀ userId link fileId, s.state.users.lookup userId = some link →
    link.avatarFileId = some fileId → ∃ row, s.state.files.lookup fileId = some row ∧
      row.key ∈ s.state.objects ∧ row.ownerId = userId ∧
        startsWith row.key (avatarPrefix userId) = true
  image : ∀ productId link fileId, s.state.products.lookup productId = some link →
    link.imageFileId = some fileId → ∃ row, s.state.files.lookup fileId = some row ∧
      row.key ∈ s.state.objects ∧ Opaque productId ∧
        startsWith row.key (productPrefix productId) = true

/-- The user or the product `id` names the file. -/
def Linked (s : FilesState) (fileId id : String) : Prop :=
  (∃ link, s.users.lookup id = some link ∧ link.avatarFileId = some fileId) ∨
    ∃ link, s.products.lookup id = some link ∧ link.imageFileId = some fileId

theorem FilesSafe.linked {U : AuthUser → PresignFileDto → Prop} {s : SharedFiles}
    (h : FilesSafe U s) {fileId id : String} (hlinked : Linked s.state fileId id) :
    ∃ row, s.state.files.lookup fileId = some row ∧ row.key ∈ s.state.objects ∧
      InFolder row id := by
  rcases hlinked with ⟨link, hlink, hfile⟩ | ⟨link, hlink, hfile⟩
  · obtain ⟨row, hrow, hobject, hfolder⟩ := h.avatar id link fileId hlink hfile
    exact ⟨row, hrow, hobject, .inl hfolder⟩
  · obtain ⟨row, hrow, hobject, hfolder⟩ := h.image id link fileId hlink hfile
    exact ⟨row, hrow, hobject, .inr hfolder⟩

theorem FilesSafe.linked_unique {U : AuthUser → PresignFileDto → Prop} {s : SharedFiles}
    (h : FilesSafe U s) {fileId a b : String} (ha : Linked s.state fileId a)
    (hb : Linked s.state fileId b) : a = b := by
  obtain ⟨row, hrow, _, hfolder⟩ := h.linked ha
  obtain ⟨row', hrow', _, hfolder'⟩ := h.linked hb
  obtain rfl := Option.some.inj (hrow.symm.trans hrow')
  exact hfolder.unique hfolder'

/-- A row names no entity but the one that names the file. -/
theorem FilesSafe.linked_entity {U : AuthUser → PresignFileDto → Prop} {s : SharedFiles}
    (h : FilesSafe U s) {fileId id id' : String} {row : FileColumns}
    (hlinked : Linked s.state fileId id) (hrow : s.state.files.lookup fileId = some row)
    (hentity : row.entityId = some id') : id' = id := by
  obtain ⟨row', hrow', _, hfolder⟩ := h.linked hlinked
  obtain rfl := Option.some.inj (hrow.symm.trans hrow')
  exact ((h.known fileId row (h.listed fileId row hrow)).filed id' hentity).unique hfolder

/-! What a request has seen, and what it may do then. -/

structure Seen where
  files : List FileRecord
  keys : List String

namespace Seen

def found (g : Seen) (file : FileRecord) : Seen := { g with files := file :: g.files }

def stored (g : Seen) (key : String) : Seen := { g with keys := key :: g.keys }

/-- The object of the file was in the storage when the file became ready, or is there now. -/
def Backed (g : Seen) (file : FileColumns) : Prop := file.status = .ready ∨ file.key ∈ g.keys

end Seen

def filesAllowed (U : AuthUser → PresignFileDto → Prop) (g : Seen) : FilesOp → Prop
  | .insertFile draft => ∃ user dto, U user dto ∧ ∀ now, Presigned user dto (draft.columns now) ∧
      Filed (draft.columns now)
  | .saveFile file => file.status = .ready ∧ Filed file.toFileColumns ∧ ∃ seen ∈ g.files,
      file.id = seen.id ∧ SameFile file.toFileColumns seen.toFileColumns ∧
        g.Backed seen.toFileColumns
  | .updateUser id fileId => ∃ seen ∈ g.files, seen.id = fileId ∧ g.Backed seen.toFileColumns ∧
      seen.ownerId = id ∧ startsWith seen.key (avatarPrefix id) = true
  | .updateProduct id fileId => ∃ seen ∈ g.files, seen.id = fileId ∧
      g.Backed seen.toFileColumns ∧ Opaque id ∧ startsWith seen.key (productPrefix id) = true
  | _ => True

def filesNext (g : Seen) : (o : FilesOp) → Except Thrown o.Ans → Seen → Prop
  | .findFile id, .ok (some file), g' => file.id = id ∧ g' = g.found file
  | .insertFile draft, .ok file, g' => (∃ now, file.toFileColumns = draft.columns now) ∧
      g' = g.found file
  | .saveFile file, .ok saved, g' => saved.id = file.id ∧ saved.status = file.status ∧
      saved.entityId = file.entityId ∧ SameFile saved.toFileColumns file.toFileColumns ∧
      g' = g.found saved
  | .objectExists key, .ok true, g' => g' = g.stored key
  | _, _, g' => g' = g

def filesRules (U : AuthUser → PresignFileDto → Prop) :
    Protocol FilesOp FilesOp.Ans Thrown Seen where
  allowed := filesAllowed U
  next := filesNext

structure FilesKept (U : AuthUser → PresignFileDto → Prop) (s : SharedFiles) (γ : Nat → Seen) :
    Prop where
  safe : FilesSafe U s
  files : ∀ i, ∀ file ∈ (γ i).files, Known s file.id file.toFileColumns
  keys : ∀ i, ∀ key ∈ (γ i).keys, key ∈ s.state.objects

/-! What the operations do to the rows. -/

/-- What was known of a file in `s` still holds in `t`. -/
structure Extends (s t : SharedFiles) : Prop where
  files : ∀ id row, s.state.files.lookup id = some row → ∃ row',
    t.state.files.lookup id = some row' ∧ SameFile row row' ∧
      (row.status = .ready → row'.status = .ready)
  objects : ∀ key ∈ s.state.objects, key ∈ t.state.objects

section Steps

variable {U : AuthUser → PresignFileDto → Prop} {s t : SharedFiles} {id : String}
  {row old seen entity reread : FileColumns}

theorem Extends.of_files (hfiles : t.state.files = s.state.files)
    (hobjects : ∀ key ∈ s.state.objects, key ∈ t.state.objects) : Extends s t := by
  refine ⟨fun id row hrow => ⟨row, ?_, .refl row, fun hready => hready⟩, hobjects⟩
  rwa [hfiles]

theorem Known.mono (h : Known s id seen) (ht : Extends s t) : Known t id seen := by
  obtain ⟨row, hrow, hsame, hready⟩ := h.current
  obtain ⟨row', hrow', hsame', hready'⟩ := ht.files id row hrow
  exact ⟨⟨row', hrow', hsame.trans hsame', fun hs => hready' (hready hs)⟩, h.filed⟩

theorem FilesKept.step {γ : Nat → Seen} (h : FilesKept U s γ) (hst : Extends s t)
    (ht : FilesSafe U t) {i : Nat} {g : Seen}
    (hfiles : ∀ file ∈ g.files, file ∈ (γ i).files ∨ Known t file.id file.toFileColumns)
    (hkeys : ∀ key ∈ g.keys, key ∈ (γ i).keys ∨ key ∈ t.state.objects) :
    FilesKept U t (Function.update γ i g) where
  safe := ht
  files j file hmem := by
    by_cases hj : j = i
    · subst hj
      rw [Function.update_self] at hmem
      rcases hfiles file hmem with hold | hnew
      · exact (h.files j file hold).mono hst
      · exact hnew
    · rw [Function.update_of_ne hj] at hmem
      exact (h.files j file hmem).mono hst
  keys j key hmem := by
    by_cases hj : j = i
    · subst hj
      rw [Function.update_self] at hmem
      rcases hkeys key hmem with hold | hnew
      · exact hst.objects key (h.keys j key hold)
      · exact hnew
    · rw [Function.update_of_ne hj] at hmem
      exact hst.objects key (h.keys j key hmem)

theorem FilesKept.same {γ : Nat → Seen} (h : FilesKept U s γ) (i : Nat) :
    FilesKept U s (Function.update γ i (γ i)) := by
  rwa [Function.update_eq_self]

/-- The links of `t`, when only files have changed. -/
theorem FilesSafe.of_extends (h : FilesSafe U s) (hst : Extends s t)
    (husers : t.state.users = s.state.users) (hproducts : t.state.products = s.state.products)
    (listed : ∀ id row, t.state.files.lookup id = some row → (id, row) ∈ t.rows)
    (known : ∀ id row, (id, row) ∈ t.rows → (id, row) ∈ s.rows ∨ Known t id row)
    (uploaded : ∀ id row, t.state.files.lookup id = some row → ∃ user dto, U user dto ∧
      Presigned user dto row)
    (stored : ∀ id row, t.state.files.lookup id = some row → row.status = .ready →
      row.key ∈ t.state.objects)
    (distinct : ∀ id id' row row', t.state.files.lookup id = some row →
      t.state.files.lookup id' = some row' → row.key = row'.key → id = id') : FilesSafe U t where
  listed := listed
  known id row hmem := by
    rcases known id row hmem with hold | hnew
    · exact (h.known id row hold).mono hst
    · exact hnew
  uploaded := uploaded
  stored := stored
  distinct := distinct
  avatar userId link fileId huser hlink := by
    rw [husers] at huser
    obtain ⟨row, hrow, hobject, howner, hkey⟩ := h.avatar userId link fileId huser hlink
    obtain ⟨row', hrow', hsame, _⟩ := hst.files fileId row hrow
    rw [hsame.owner] at howner
    rw [hsame.key] at hobject hkey
    exact ⟨row', hrow', hst.objects _ hobject, howner, hkey⟩
  image productId link fileId hproduct hlink := by
    rw [hproducts] at hproduct
    obtain ⟨row, hrow, hobject, hslash, hkey⟩ := h.image productId link fileId hproduct hlink
    obtain ⟨row', hrow', hsame, _⟩ := hst.files fileId row hrow
    rw [hsame.key] at hobject hkey
    exact ⟨row', hrow', hst.objects _ hobject, hslash, hkey⟩

def SharedFiles.appear (s : SharedFiles) (keys : List String) : SharedFiles :=
  ⟨{ s.state with objects := s.state.objects ++ keys }, s.rows⟩

theorem extends_appear (s : SharedFiles) (keys : List String) : Extends s (s.appear keys) :=
  .of_files rfl (fun _ hkey => List.mem_append_left _ hkey)

theorem FilesSafe.appear (h : FilesSafe U s) (keys : List String) : FilesSafe U (s.appear keys) :=
  h.of_extends (extends_appear s keys) rfl rfl h.listed (fun _ _ hmem => .inl hmem) h.uploaded
    (fun id row hrow hready => List.mem_append_left _ (h.stored id row hrow hready)) h.distinct

theorem SharedFiles.write_lookup {id' : String}
    (h : (s.write id row).state.files.lookup id' = some old) :
    (id' = id ∧ old = row) ∨ (id' ≠ id ∧ s.state.files.lookup id' = some old) :=
  lookup_insert_cases h

/-- A new row, under a key that no other row has. -/
theorem FilesSafe.inserted (h : FilesSafe U s) (hfresh : s.state.files.lookup id = none)
    (hkey : ∀ id' row', s.state.files.lookup id' = some row' → row'.key ≠ row.key)
    (hstatus : row.status = .pending) (hfiled : Filed row)
    (huploaded : ∃ user dto, U user dto ∧ Presigned user dto row) :
    Extends s (s.write id row) ∧ FilesSafe U (s.write id row) := by
  have hself : (s.write id row).state.files.lookup id = some row := AList.lookup_insert _
  have hextends : Extends s (s.write id row) := by
    refine ⟨?_, fun _ hkey => hkey⟩
    intro id' row' hrow'
    have hne : id' ≠ id := by
      rintro rfl
      rw [hfresh] at hrow'
      cases hrow'
    exact ⟨row', (AList.lookup_insert_ne hne).trans hrow', .refl row', fun hready => hready⟩
  refine ⟨hextends, h.of_extends hextends rfl rfl ?_ ?_ ?_ ?_ ?_⟩
  · intro id' row' hrow'
    rcases SharedFiles.write_lookup hrow' with ⟨rfl, rfl⟩ | ⟨_, hold⟩
    · exact List.mem_append_right _ (List.mem_singleton_self _)
    · exact List.mem_append_left _ (h.listed id' row' hold)
  · intro id' row' hmem
    rcases List.mem_append.mp hmem with hold | hnew
    · exact .inl hold
    · obtain ⟨rfl, rfl⟩ := Prod.mk.inj (List.mem_singleton.mp hnew)
      exact .inr ⟨⟨_, hself, .refl _, fun hready => hready⟩, hfiled⟩
  · intro id' row' hrow'
    rcases SharedFiles.write_lookup hrow' with ⟨_, rfl⟩ | ⟨_, hold⟩
    · exact huploaded
    · exact h.uploaded id' row' hold
  · intro id' row' hrow' hready
    rcases SharedFiles.write_lookup hrow' with ⟨_, rfl⟩ | ⟨_, hold⟩
    · rw [hstatus] at hready
      cases hready
    · exact h.stored id' row' hold hready
  · intro a b rowa rowb ha hb hsame
    rcases SharedFiles.write_lookup ha with ⟨rfl, rfl⟩ | ⟨_, holda⟩
    · rcases SharedFiles.write_lookup hb with ⟨rfl, _⟩ | ⟨_, holdb⟩
      · rfl
      · exact absurd hsame.symm (hkey b rowb holdb)
    · rcases SharedFiles.write_lookup hb with ⟨rfl, rfl⟩ | ⟨_, holdb⟩
      · exact absurd hsame (hkey a rowa holda)
      · exact h.distinct a b rowa rowb holda holdb hsame

theorem Presigned.of_same {user : AuthUser} {dto : PresignFileDto} (h : Presigned user dto old)
    (hsame : SameFile old row) : Presigned user dto row where
  valid := h.valid
  owner := hsame.owner.symm.trans h.owner
  size := hsame.size.symm.trans h.size
  contentType := hsame.contentType.symm.trans h.contentType
  extension := by
    rw [← hsame.key]
    exact h.extension
  key := by
    rw [← hsame.key]
    exact h.key

/-- A row of the same file that is ready, as its object is in the storage. -/
theorem FilesSafe.saved (h : FilesSafe U s) (hold : s.state.files.lookup id = some old)
    (hsame : SameFile old row) (hstatus : row.status = .ready) (hfiled : Filed row)
    (hobject : row.key ∈ s.state.objects) :
    Extends s (s.write id row) ∧ FilesSafe U (s.write id row) := by
  have hself : (s.write id row).state.files.lookup id = some row := AList.lookup_insert _
  have hextends : Extends s (s.write id row) := by
    refine ⟨?_, fun _ hkey => hkey⟩
    intro id' row' hrow'
    by_cases hid : id' = id
    · subst hid
      obtain rfl := Option.some.inj (hold.symm.trans hrow')
      exact ⟨row, hself, hsame, fun _ => hstatus⟩
    · exact ⟨row', (AList.lookup_insert_ne hid).trans hrow', .refl row', fun hready => hready⟩
  have hback : ∀ id' row', (s.write id row).state.files.lookup id' = some row' →
      ∃ row'', s.state.files.lookup id' = some row'' ∧ SameFile row'' row' := by
    intro id' row' hrow'
    rcases SharedFiles.write_lookup hrow' with ⟨rfl, rfl⟩ | ⟨_, hrow'⟩
    · exact ⟨old, hold, hsame⟩
    · exact ⟨row', hrow', .refl row'⟩
  refine ⟨hextends, h.of_extends hextends rfl rfl ?_ ?_ ?_ ?_ ?_⟩
  · intro id' row' hrow'
    rcases SharedFiles.write_lookup hrow' with ⟨rfl, rfl⟩ | ⟨_, hrow'⟩
    · exact List.mem_append_right _ (List.mem_singleton_self _)
    · exact List.mem_append_left _ (h.listed id' row' hrow')
  · intro id' row' hmem
    rcases List.mem_append.mp hmem with hmem | hnew
    · exact .inl hmem
    · obtain ⟨rfl, rfl⟩ := Prod.mk.inj (List.mem_singleton.mp hnew)
      exact .inr ⟨⟨_, hself, .refl _, fun hready => hready⟩, hfiled⟩
  · intro id' row' hrow'
    obtain ⟨row'', hrow'', hsame'⟩ := hback id' row' hrow'
    obtain ⟨user, dto, hU, hpresigned⟩ := h.uploaded id' row'' hrow''
    exact ⟨user, dto, hU, hpresigned.of_same hsame'⟩
  · intro id' row' hrow' hready
    rcases SharedFiles.write_lookup hrow' with ⟨_, rfl⟩ | ⟨_, hrow'⟩
    · exact hobject
    · exact h.stored id' row' hrow' hready
  · intro a b rowa rowb ha hb hkey
    obtain ⟨rowa', ha', hsamea⟩ := hback a rowa ha
    obtain ⟨rowb', hb', hsameb⟩ := hback b rowb hb
    exact h.distinct a b rowa' rowb' ha' hb' (hsamea.key.trans (hkey.trans hsameb.key.symm))

theorem column_same {α : Type} [DecidableEq α] {a b c : α} (hac : a = c) : column a b c = c := by
  unfold column
  split
  · rfl
  · exact hac

/-- Whichever row `save` finds, it leaves what the upload fixed, and the row is
ready when the entity is. -/
theorem savedOver_same (hentity : SameFile entity row) (hstatus : entity.status = .ready)
    (hreread : reread.status = .ready → row.status = .ready) (hfiled : Filed entity)
    (hrow : Filed row) (now : Nat) : SameFile row (entity.savedOver reread row now) ∧
      (entity.savedOver reread row now).status = .ready ∧
      Filed (entity.savedOver reread row now) := by
  unfold FileColumns.savedOver
  split
  · next he =>
    subst he
    exact ⟨.refl row, hreread hstatus, hrow⟩
  · have hsame : SameFile row
        { ownerId := column entity.ownerId reread.ownerId row.ownerId
          entityId := column entity.entityId reread.entityId row.entityId
          key := column entity.key reread.key row.key
          contentType := column entity.contentType reread.contentType row.contentType
          size := column entity.size reread.size row.size
          status := column entity.status reread.status row.status
          visibility := column entity.visibility reread.visibility row.visibility
          createdAt := column entity.createdAt reread.createdAt row.createdAt
          updatedAt := updateDate entity.updatedAt reread.updatedAt now } :=
      ⟨(column_same hentity.owner).symm, (column_same hentity.key).symm,
        (column_same hentity.contentType).symm, (column_same hentity.size).symm,
        (column_same hentity.visibility).symm, (column_same hentity.createdAt).symm⟩
    refine ⟨hsame, ?_, ?_⟩
    · dsimp only
      unfold column
      split
      · next he => exact hreread (he ▸ hstatus)
      · exact hstatus
    · intro id hid
      refine InFolder.congr ?_ hsame
      dsimp only at hid
      unfold column at hid
      split at hid
      · exact hrow id hid
      · exact (hfiled id hid).congr hentity

theorem savedEntity_same (entity reread : FileColumns) (now : Nat) :
    SameFile (entity.savedEntity reread now) entity ∧
      (entity.savedEntity reread now).status = entity.status ∧
        (entity.savedEntity reread now).entityId = entity.entityId := by
  unfold FileColumns.savedEntity
  split
  · exact ⟨.refl entity, rfl, rfl⟩
  · exact ⟨⟨rfl, rfl, rfl, rfl, rfl, rfl⟩, rfl, rfl⟩

/-- The user names a file of its own. -/
theorem FilesSafe.named_avatar (h : FilesSafe U s) {userId : String} {now : Nat}
    (hrow : s.state.files.lookup id = some row) (hobject : row.key ∈ s.state.objects)
    (howner : row.ownerId = userId) (hkey : startsWith row.key (avatarPrefix userId) = true) :
    FilesSafe U ⟨{ s.state with users := s.state.users.insert userId ⟨some id, now⟩ }, s.rows⟩ :=
  { h with
    known := fun id row hmem => (h.known id row hmem).mono (.of_files rfl (fun _ hkey => hkey))
    avatar := by
      intro userId' link fileId huser hlink
      rcases lookup_insert_cases huser with ⟨rfl, rfl⟩ | ⟨_, huser⟩
      · obtain rfl := Option.some.inj hlink
        exact ⟨row, hrow, hobject, howner, hkey⟩
      · exact h.avatar userId' link fileId huser hlink }

theorem FilesSafe.named_image (h : FilesSafe U s) {productId : String} {now : Nat}
    (hrow : s.state.files.lookup id = some row) (hobject : row.key ∈ s.state.objects)
    (hslash : Opaque productId) (hkey : startsWith row.key (productPrefix productId) = true) :
    FilesSafe U
      ⟨{ s.state with products := s.state.products.insert productId ⟨some id, now⟩ }, s.rows⟩ :=
  { h with
    known := fun id row hmem => (h.known id row hmem).mono (.of_files rfl (fun _ hkey => hkey))
    image := by
      intro productId' link fileId hproduct hlink
      rcases lookup_insert_cases hproduct with ⟨rfl, rfl⟩ | ⟨_, hproduct⟩
      · obtain rfl := Option.some.inj hlink
        exact ⟨row, hrow, hobject, hslash, hkey⟩
      · exact h.image productId' link fileId hproduct hlink }

end Steps

/-! Every operation that is allowed keeps the files safe. -/

structure Performed (U : AuthUser → PresignFileDto → Prop) (s t : SharedFiles) (g : Seen)
    (o : FilesOp) (a : Except Thrown o.Ans) (g' : Seen) : Prop where
  extend : Extends s t
  safe : FilesSafe U t
  next : filesNext g o a g'
  files : ∀ file ∈ g'.files, file ∈ g.files ∨ Known t file.id file.toFileColumns
  keys : ∀ key ∈ g'.keys, key ∈ g.keys ∨ key ∈ t.state.objects

section Sound

variable {U : AuthUser → PresignFileDto → Prop} {s t : SharedFiles} {γ : Nat → Seen} {i : Nat}
  {c : SharedChoice}

theorem Performed.found {g : Seen} {o : FilesOp} {a : Except Thrown o.Ans} (file : FileRecord)
    (extend : Extends s t) (safe : FilesSafe U t) (next : filesNext g o a (g.found file))
    (known : Known t file.id file.toFileColumns) : Performed U s t g o a (g.found file) where
  extend := extend
  safe := safe
  next := next
  files file' hmem := by
    rcases List.mem_cons.mp hmem with rfl | hold
    · exact .inr known
    · exact .inl hold
  keys _ hkey := .inl hkey

theorem Performed.unseen {g : Seen} {o : FilesOp} {a : Except Thrown o.Ans} (extend : Extends s t)
    (safe : FilesSafe U t) (next : filesNext g o a g) : Performed U s t g o a g where
  extend := extend
  safe := safe
  next := next
  files _ hmem := .inl hmem
  keys _ hkey := .inl hkey

/-- The present row of a file that was seen, and its object when the file is backed. -/
theorem FilesKept.backed (h : FilesKept U s γ) {seen : FileRecord} (hseen : seen ∈ (γ i).files)
    (hbacked : (γ i).Backed seen.toFileColumns) : ∃ row, s.state.files.lookup seen.id = some row ∧
      SameFile seen.toFileColumns row ∧ row.key ∈ s.state.objects := by
  obtain ⟨row, hrow, hsame, hready⟩ := (h.files i seen hseen).current
  refine ⟨row, hrow, hsame, ?_⟩
  rcases hbacked with hstatus | hkey
  · exact h.safe.stored seen.id row hrow (hready hstatus)
  · rw [← hsame.key]
    exact h.keys i _ hkey

theorem performed_findFile (h : FilesKept U s γ) {id : String}
    {a : Except Thrown (FilesOp.Ans (.findFile id))}
    (hp : s.perform c (.findFile id) = some (a, t)) :
    ∃ g, Performed U s t (γ i) (.findFile id) a g := by
  obtain ⟨rfl, rfl⟩ := Prod.mk.inj (Option.some.inj hp)
  have hsame : Extends s s := .of_files rfl (fun _ hkey => hkey)
  cases hrow : s.state.files.lookup id with
  | none => exact ⟨γ i, .unseen hsame h.safe rfl⟩
  | some row =>
    exact ⟨(γ i).found ⟨row, id⟩, .found _ hsame h.safe ⟨rfl, rfl⟩
      (h.safe.known id row (h.safe.listed id row hrow))⟩

theorem performed_objectExists (h : FilesKept U s γ) {key : String}
    {a : Except Thrown (FilesOp.Ans (.objectExists key))}
    (hp : s.perform c (.objectExists key) = some (a, t)) :
    ∃ g, Performed U s t (γ i) (.objectExists key) a g := by
  obtain ⟨rfl, rfl⟩ := Prod.mk.inj (Option.some.inj hp)
  have hsame : Extends s s := .of_files rfl (fun _ hkey => hkey)
  by_cases hkey : key ∈ s.state.objects
  · refine ⟨(γ i).stored key, hsame, h.safe, ?_, fun _ hmem => .inl hmem, ?_⟩
    · rw [decide_eq_true hkey]
      rfl
    · intro key' hmem
      rcases List.mem_cons.mp hmem with rfl | hold
      · exact .inr hkey
      · exact .inl hold
  · refine ⟨γ i, .unseen hsame h.safe ?_⟩
    rw [decide_eq_false hkey]
    rfl

theorem performed_insertFile (h : FilesKept U s γ) {draft : FileDraft}
    (ha : filesAllowed U (γ i) (.insertFile draft))
    {a : Except Thrown (FilesOp.Ans (.insertFile draft))}
    (hp : s.perform c (.insertFile draft) = some (a, t)) :
    ∃ g, Performed U s t (γ i) (.insertFile draft) a g := by
  have hsame : Extends s s := .of_files rfl (fun _ hkey => hkey)
  obtain ⟨user, dto, hU, hdraft⟩ := ha
  simp only [SharedFiles.perform, FilesState.perform] at hp
  by_cases hfresh : (s.state.files.lookup c.id).isSome = true
  · simp [hfresh] at hp
  by_cases htaken : s.state.keyTaken draft.key = true
  · simp only [hfresh, htaken, if_true, if_false, Bool.false_eq_true] at hp
    obtain ⟨rfl, rfl⟩ := Prod.mk.inj (Option.some.inj hp)
    exact ⟨γ i, .unseen hsame h.safe rfl⟩
  by_cases howner : (s.state.users.lookup draft.ownerId).isNone = true
  · simp only [hfresh, htaken, howner, if_true, if_false, Bool.false_eq_true] at hp
    obtain ⟨rfl, rfl⟩ := Prod.mk.inj (Option.some.inj hp)
    exact ⟨γ i, .unseen hsame h.safe rfl⟩
  simp only [hfresh, htaken, howner, if_false, Bool.false_eq_true] at hp
  obtain ⟨rfl, rfl⟩ := Prod.mk.inj (Option.some.inj hp)
  have hnone : s.state.files.lookup c.id = none := by simpa using hfresh
  have hkey : ∀ id' row', s.state.files.lookup id' = some row' → row'.key ≠ draft.key := by
    intro id' row' hrow' hkey
    apply htaken
    rw [FilesState.keyTaken, List.any_eq_true]
    exact ⟨⟨id', row'⟩, AList.mem_lookup_iff.mp hrow', by simpa using hkey⟩
  obtain ⟨hpresigned, hfiled⟩ := hdraft c.now
  obtain ⟨hextends, hsafe⟩ := h.safe.inserted hnone hkey rfl hfiled ⟨user, dto, hU, hpresigned⟩
  have hself : (s.write c.id (draft.columns c.now)).state.files.lookup c.id =
      some (draft.columns c.now) := AList.lookup_insert _
  exact ⟨_, .found ⟨draft.columns c.now, c.id⟩ hextends hsafe ⟨⟨c.now, rfl⟩, rfl⟩
    (hsafe.known _ _ (hsafe.listed _ _ hself))⟩

theorem performed_saveFile (h : FilesKept U s γ) {file : FileRecord}
    (ha : filesAllowed U (γ i) (.saveFile file))
    {a : Except Thrown (FilesOp.Ans (.saveFile file))}
    (hp : s.perform c (.saveFile file) = some (a, t)) :
    ∃ g, Performed U s t (γ i) (.saveFile file) a g := by
  obtain ⟨hstatus, hfiled, seen, hseen, hid, hsame, hbacked⟩ := ha
  obtain ⟨row, hrow, hcurrent, hobject⟩ := h.backed hseen hbacked
  rw [← hid] at hrow
  simp only [SharedFiles.perform, hrow] at hp
  split at hp
  · next hmem =>
    obtain ⟨rfl, rfl⟩ := Prod.mk.inj (Option.some.inj hp)
    have hreread := h.safe.known _ _ hmem
    have hready : c.reread.status = .ready → row.status = .ready := by
      obtain ⟨row', hrow', _, hready⟩ := hreread.current
      obtain rfl := Option.some.inj (hrow.symm.trans hrow')
      exact hready
    have hknown := h.safe.known file.id row (h.safe.listed file.id row hrow)
    obtain ⟨hover, hoverStatus, hoverFiled⟩ := savedOver_same (hsame.trans hcurrent) hstatus hready
      hfiled hknown.filed c.now
    obtain ⟨hextends, hsafe⟩ := h.safe.saved hrow hover hoverStatus hoverFiled
      (by rwa [← hover.key])
    have hself : (s.write file.id (file.savedOver c.reread row c.now)).state.files.lookup file.id =
        some (file.savedOver c.reread row c.now) := AList.lookup_insert _
    obtain ⟨hentity, hentityStatus, hentityId⟩ := savedEntity_same file.toFileColumns c.reread c.now
    refine ⟨_, .found ⟨file.savedEntity c.reread c.now, file.id⟩ hextends hsafe
      ⟨rfl, hentityStatus, hentityId, hentity, rfl⟩ ⟨⟨_, hself, ?_, fun _ => hoverStatus⟩, ?_⟩⟩
    · exact hentity.trans ((hsame.trans hcurrent).trans hover)
    · intro id hid'
      rw [hentityId] at hid'
      exact (hfiled id hid').congr hentity.symm
  · cases hp

theorem performed_updateUser (h : FilesKept U s γ) {id fileId : String}
    (ha : filesAllowed U (γ i) (.updateUser id fileId))
    {a : Except Thrown (FilesOp.Ans (.updateUser id fileId))}
    (hp : s.perform c (.updateUser id fileId) = some (a, t)) :
    ∃ g, Performed U s t (γ i) (.updateUser id fileId) a g := by
  obtain ⟨seen, hseen, rfl, hbacked, howner, hkey⟩ := ha
  obtain ⟨row, hrow, hcurrent, hobject⟩ := h.backed hseen hbacked
  have hnone : (s.state.files.lookup seen.id).isNone = false := by rw [hrow]; rfl
  simp only [SharedFiles.perform, FilesState.perform, hnone, Bool.false_eq_true, if_false] at hp
  split_ifs at hp
  · obtain ⟨rfl, rfl⟩ := Prod.mk.inj (Option.some.inj hp)
    exact ⟨γ i, .unseen (.of_files rfl (fun _ hkey => hkey)) h.safe rfl⟩
  · obtain ⟨rfl, rfl⟩ := Prod.mk.inj (Option.some.inj hp)
    refine ⟨γ i, .unseen (.of_files rfl (fun _ hkey => hkey)) ?_ rfl⟩
    exact h.safe.named_avatar hrow hobject (hcurrent.owner.symm.trans howner)
      (by rwa [← hcurrent.key])

theorem performed_updateProduct (h : FilesKept U s γ) {id fileId : String}
    (ha : filesAllowed U (γ i) (.updateProduct id fileId))
    {a : Except Thrown (FilesOp.Ans (.updateProduct id fileId))}
    (hp : s.perform c (.updateProduct id fileId) = some (a, t)) :
    ∃ g, Performed U s t (γ i) (.updateProduct id fileId) a g := by
  obtain ⟨seen, hseen, rfl, hbacked, hslash, hkey⟩ := ha
  obtain ⟨row, hrow, hcurrent, hobject⟩ := h.backed hseen hbacked
  have hnone : (s.state.files.lookup seen.id).isNone = false := by rw [hrow]; rfl
  simp only [SharedFiles.perform, FilesState.perform, hnone, Bool.false_eq_true, if_false] at hp
  split_ifs at hp
  · obtain ⟨rfl, rfl⟩ := Prod.mk.inj (Option.some.inj hp)
    exact ⟨γ i, .unseen (.of_files rfl (fun _ hkey => hkey)) h.safe rfl⟩
  · obtain ⟨rfl, rfl⟩ := Prod.mk.inj (Option.some.inj hp)
    refine ⟨γ i, .unseen (.of_files rfl (fun _ hkey => hkey)) ?_ rfl⟩
    exact h.safe.named_image hrow hobject hslash (by rwa [← hcurrent.key])

theorem performed (h : FilesKept U s γ) {o : FilesOp} (ha : filesAllowed U (γ i) o)
    {a : Except Thrown o.Ans} (hp : s.perform c o = some (a, t)) :
    ∃ g, Performed U s t (γ i) o a g := by
  cases o with
  | findFile id => exact performed_findFile h hp
  | insertFile draft => exact performed_insertFile h ha hp
  | saveFile file => exact performed_saveFile h ha hp
  | updateUser id fileId => exact performed_updateUser h ha hp
  | updateProduct id fileId => exact performed_updateProduct h ha hp
  | objectExists key => exact performed_objectExists h hp
  | productExists id | presignPutObject key | randomUUID =>
    obtain ⟨rfl, rfl⟩ := Prod.mk.inj (Option.some.inj hp)
    exact ⟨γ i, .unseen (.of_files rfl (fun _ hkey => hkey)) h.safe rfl⟩

theorem exec_shared_cases {o : FilesOp} {r : Except Thrown o.Ans}
    (h : s.exec i c o = some (r, t)) : (∃ e, r = .error e ∧ t = s.appear c.appeared) ∨
      ∃ a, (s.appear c.appeared).perform c o = some (a, t) ∧ (r = a ∨ ∃ e, r = .error e) := by
  simp only [SharedFiles.exec] at h
  cases hf : c.failure o with
  | some e =>
    rw [hf] at h
    obtain ⟨rfl, rfl⟩ := Prod.mk.inj (Option.some.inj h)
    exact .inl ⟨e, rfl, rfl⟩
  | none =>
    rw [hf] at h
    obtain ⟨⟨a, u⟩, hp, he⟩ := Option.map_eq_some_iff.mp h
    obtain ⟨rfl, rfl⟩ := Prod.mk.inj he
    exact .inr ⟨a, hp, c.answer_cases a⟩

theorem filesNext_error (g : Seen) (o : FilesOp) (e : Thrown) : filesNext g o (.error e) g := by
  cases o <;> rfl

theorem filesRules_sound (U : AuthUser → PresignFileDto → Prop) :
    (filesRules U).Sound sharedFiles Always (FilesKept U) where
  exec {s γ i c o r t} hinv _ ha hexec := by
    have happeared : FilesKept U (s.appear c.appeared) γ := by
      have hstep := hinv.step (i := i) (g := γ i) (extends_appear s c.appeared)
        (hinv.safe.appear c.appeared) (fun _ hmem => .inl hmem) (fun _ hkey => .inl hkey)
      rwa [Function.update_eq_self] at hstep
    rcases exec_shared_cases (i := i) hexec with ⟨e, rfl, rfl⟩ | ⟨a, hp, hr⟩
    · exact ⟨γ i, filesNext_error _ o e, happeared.same i⟩
    · obtain ⟨g, hg⟩ := performed happeared ha hp
      rcases hr with rfl | ⟨e, rfl⟩
      · exact ⟨g, hg.next, happeared.step hg.extend hg.safe hg.files hg.keys⟩
      · exact ⟨γ i, filesNext_error _ o e, happeared.step hg.extend hg.safe
          (fun _ hmem => .inl hmem) (fun _ hkey => .inl hkey)⟩

end Sound

end Ecomm
