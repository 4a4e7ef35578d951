import Ecomm.FileBindings
import Ecomm.Lib.Context

/-! The key of an upload, built when it was presigned, is what decides later to
whom its file may be bound. -/

namespace Ecomm

open Concurrent FilesService

/-- What the validation of a `completeUpload` request lets through. -/
inductive Binding : CompleteUploadDto → Prop where
  | avatar (fileId : String) (productId : Option String) : Binding ⟨fileId, "avatar", productId⟩
  | image (fileId productId : String) (given : productId ≠ "") (opaqueId : Opaque productId) :
      Binding ⟨fileId, "product-image", some productId⟩

def PassesKeyCheck (key : String) (dto : CompleteUploadDto) (user : AuthUser) : Prop :=
  if dto.bindTo = "avatar" then assertAvatarKeyBelongsToOwner key user.sub = pure ()
  else ∃ productId, dto.productId = some productId ∧
    assertProductKeyMatchesTarget key productId = pure ()

def PresignedFor (upload : PresignFileDto) (dto : CompleteUploadDto) : Prop :=
  upload.kind = dto.bindTo ∧ (dto.bindTo = "product-image" → upload.productId = dto.productId)

def TargetExists (s : FilesState) (dto : CompleteUploadDto) (user : AuthUser) : Prop :=
  if dto.bindTo = "avatar" then (s.users.lookup user.sub).isSome = true
  else ∃ productId, dto.productId = some productId ∧ (s.products.lookup productId).isSome = true

/-- The file is ready, and what the request binds it to refers to it. -/
structure BoundAsAsked (s : FilesState) (dto : CompleteUploadDto) (user : AuthUser) : Prop where
  ready : ∃ columns, s.files.lookup dto.fileId = some columns ∧ columns.status = .ready
  link : ∃ now, s.link dto user = some (some dto.fileId, now)

theorem image_ne_avatar : ("product-image" : String) ≠ "avatar" := by decide

theorem truthy_given {text : String} (h : text ≠ "") : truthy (some text) = some text := by
  simpa [truthy] using h

section KeyCheck

variable {key : String} {user : AuthUser}

theorem assertAvatarKey_iff {userId : String} :
    assertAvatarKeyBelongsToOwner key userId = pure () ↔
      startsWith key (avatarPrefix userId) = true := by
  rw [assertAvatarKeyBelongsToOwner]
  by_cases hkey : startsWith key (avatarPrefix userId) = true
  · rw [if_neg (by simpa using hkey)]
    exact iff_of_true rfl hkey
  · rw [if_pos hkey]
    refine iff_of_false (fun hpassed => ?_) hkey
    cases hpassed

theorem assertProductKey_iff {productId : String} :
    assertProductKeyMatchesTarget key productId = pure () ↔
      startsWith key (productPrefix productId) = true := by
  rw [assertProductKeyMatchesTarget]
  by_cases hkey : startsWith key (productPrefix productId) = true
  · rw [if_neg (by simpa using hkey)]
    exact iff_of_true rfl hkey
  · rw [if_pos hkey]
    refine iff_of_false (fun hpassed => ?_) hkey
    cases hpassed

theorem Presigned.passes_iff {upload : PresignFileDto} {columns : FileColumns}
    (h : Presigned user upload columns)
    (hids : ∀ productId ∈ upload.productId, Opaque productId) {dto : CompleteUploadDto}
    (hdto : Binding dto) {caller : AuthUser} (hcaller : caller.sub = user.sub) :
    PassesKeyCheck columns.key dto caller ↔ PresignedFor upload dto := by
  cases hdto with
  | avatar fileId productId =>
    rw [PassesKeyCheck, if_pos rfl, assertAvatarKey_iff, hcaller]
    constructor
    · intro hkey
      rcases h.key with ⟨hkind, _⟩ | ⟨_, target, _, himage⟩
      · exact ⟨hkind, fun hbind => absurd hbind.symm image_ne_avatar⟩
      · exact (avatar_ne_product hkey himage).elim
    · intro hfor
      rcases h.key with ⟨_, hkey⟩ | ⟨hkind, _⟩
      · exact hkey
      · exact absurd (hkind.symm.trans hfor.1) image_ne_avatar
  | image fileId productId given opaqueId =>
    rw [PassesKeyCheck, if_neg image_ne_avatar]
    constructor
    · intro hpasses
      obtain ⟨productId', hproductId, hpasses⟩ := hpasses
      obtain rfl := Option.some.inj hproductId
      have hkey := assertProductKey_iff.mp hpasses
      rcases h.key with ⟨_, havatar⟩ | ⟨hkind, target, htarget, himage⟩
      · exact (avatar_ne_product havatar hkey).elim
      · have hsame : target = productId :=
          productPrefix_inj (hids target htarget) opaqueId himage hkey
        exact ⟨hkind, fun _ => by rw [htarget, hsame]⟩
    · intro hfor
      rcases h.key with ⟨hkind, _⟩ | ⟨_, target, htarget, himage⟩
      · exact absurd (hfor.1.symm.trans hkind) image_ne_avatar
      · obtain rfl := Option.some.inj (htarget.symm.trans (hfor.2 rfl))
        exact ⟨target, rfl, assertProductKey_iff.mpr himage⟩

end KeyCheck

section Kept

variable {s3 : S3Service} {s t : FilesState} {id key ownerId : String}

def Uploaded (s : FilesState) (id key ownerId : String) : Prop :=
  ∃ columns, s.files.lookup id = some columns ∧ columns.key = key ∧ columns.ownerId = ownerId

theorem Uploaded.of_files (h : Uploaded s id key ownerId) (hfiles : t.files = s.files) :
    Uploaded t id key ownerId := by
  obtain ⟨columns, hfile, hcolumns⟩ := h
  exact ⟨columns, by rw [hfiles, hfile], hcolumns⟩

theorem Uploaded.turn (h : Uploaded s id key ownerId) {turn : FilesTurn}
    (ht : s.turn s3 turn = some t) : Uploaded t id key ownerId := by
  obtain ⟨columns, hfile, hkey, howner⟩ := h
  have hsame : ∀ {u : FilesState}, u.files = s.files → Uploaded u id key ownerId :=
    fun hfiles => Uploaded.of_files ⟨columns, hfile, hkey, howner⟩ hfiles
  rw [FilesState.turn] at ht
  cases hcall : turn.call with
  | createPresignedUpload user dto =>
    rw [hcall] at ht
    obtain ⟨⟨r, u⟩, hrun, rfl⟩ := Option.map_eq_some_iff.mp ht
    rcases createPresignedUpload_cases hrun with ⟨hsame', _⟩ | ⟨new, _, hfresh, _, _, _, _, hfiles, _⟩
    · exact hsame hsame'.files
    · have hne : id ≠ new := by
        intro he
        rw [he, hfresh] at hfile
        cases hfile
      exact ⟨columns, by rw [hfiles, AList.lookup_insert_ne hne, hfile], hkey, howner⟩
  | completeUpload dto user =>
    rw [hcall] at ht
    obtain ⟨⟨r, u⟩, hrun, rfl⟩ := Option.map_eq_some_iff.mp ht
    rcases completeUpload_cases hrun with
      ⟨hsame', _⟩ | ⟨bound, entityId, before, update, save, middle, hdone⟩
    · exact hsame hsame'.files
    · rcases hdone.saved with ⟨_, _, hsame'⟩ | ⟨_, _, _, _, hfiles⟩
      · exact hsame (hsame'.files.trans hdone.files)
      · by_cases hid : id = dto.fileId
        · obtain rfl := Option.some.inj (hfile.symm.trans (hid ▸ hdone.found))
          have hsaved := bound_saved columns entityId save.now
          exact ⟨_, by rw [hfiles, hid, AList.lookup_insert], hsaved.key.trans hkey,
            hsaved.owner.trans howner⟩
        · exact ⟨columns, by rw [hfiles, AList.lookup_insert_ne hid, hfile], hkey, howner⟩

theorem Uploaded.turns (h : Uploaded s id key ownerId) {turns : List FilesTurn}
    (ht : s.turns s3 turns = some t) : Uploaded t id key ownerId := by
  induction turns generalizing s with
  | nil =>
    obtain rfl := Option.some.inj ht
    exact h
  | cons turn turns ih =>
    obtain ⟨u, hu, hrest⟩ := Option.bind_eq_some_iff.mp ht
    exact ih (h.turn hu) hrest

end Kept

section Complete

variable {s : FilesState} {F : FilesState → FilesOp → FilesChoice → Prop} {i : Nat}

def FilesState.arrived (s : FilesState) (c : FilesChoice) : FilesState :=
  { s with objects := s.objects ++ c.appeared }

theorem wp_awaited {o : FilesOp} {Q : o.Ans → FilesState → Prop} {E : Thrown → FilesState → Prop}
    (hfailed : ∀ c e, F s o c → c.failure o = some e → E e (s.arrived c))
    (hserved : ∀ c, F s o c → c.failure o = none → ∃ r t, (s.arrived c).perform c o = some (r, t) ∧
      Prog.Outcome Q E r t) :
    (awaited o).wp (Prog.unblocked fileStore F i) Q E s := by
  apply Prog.wp_unblocked
  intro c hc
  cases hfailure : c.failure o with
  | some e =>
    have hexec : fileStore.exec s i c o = some (.error e, s.arrived c) := by
      simp only [FilesState.exec, hfailure]
      rfl
    exact ⟨.error e, s.arrived c, hexec, hfailed c e hc hfailure⟩
  | none =>
    have hexec : fileStore.exec s i c o = (s.arrived c).perform c o := by
      simp only [FilesState.exec, hfailure]
      rfl
    obtain ⟨r, t, hperform, hout⟩ := hserved c hc hfailure
    exact ⟨r, t, hexec.trans hperform, hout⟩

theorem SameTables.arrived {t : FilesState} (h : SameTables s t) (c : FilesChoice) :
    SameTables s (t.arrived c) := h.trans ⟨rfl, rfl, rfl⟩

def Calm (_ : FilesState) (o : FilesOp) (c : FilesChoice) : Prop := c.failure o = none

theorem wp_calm {o : FilesOp} {Q : o.Ans → FilesState → Prop} {E : Thrown → FilesState → Prop}
    (h : ∀ c, ∃ a t, (s.arrived c).perform c o = some (.ok a, t) ∧ Q a t) :
    (awaited o).wp (Prog.unblocked fileStore Calm i) Q E s := by
  apply wp_awaited
  · intro c e hcalm hfailure
    rw [Calm, hfailure] at hcalm
    cases hcalm
  · intro c _ _
    obtain ⟨a, t, hperform, hQ⟩ := h c
    exact ⟨.ok a, t, hperform, hQ⟩

variable {dto : CompleteUploadDto} {user : AuthUser} {columns : FileColumns} {s3 : S3Service}

theorem wp_checkObject {t : FilesState} {file : FileRecord} (ht : SameTables s t)
    (hobject : file.key ∈ t.objects) {Q : FileRecord → FilesState → Prop}
    {E : Thrown → FilesState → Prop}
    (hE : ∀ u o c e, F u o c → c.failure o = some e → ∀ v, SameTables s v → E e v)
    (hQ : ∀ u, SameTables s u → Q { file with status := .ready } u) :
    (checkObject file).wp (Prog.unblocked fileStore F i) Q E t := by
  rw [checkObject]
  cases hstatus : file.status with
  | ready =>
    have hready : { file with status := .ready } = file := by rw [← hstatus]
    rw [if_neg (by decide)]
    exact hready ▸ hQ t ht
  | pending =>
    rw [if_pos rfl]
    refine (Prog.wp_bind _ _ _ _ _).mpr (wp_awaited ?_ ?_)
    · intro c e hc hfailure
      exact hE _ _ _ _ hc hfailure _ (ht.arrived c)
    · intro c _ _
      have hfound : file.key ∈ (t.arrived c).objects := List.mem_append_left _ hobject
      refine ⟨.ok (decide (file.key ∈ (t.arrived c).objects)), t.arrived c, rfl, ?_⟩
      rw [decide_eq_true hfound]
      exact hQ _ (ht.arrived c)

/-- The owner completes an upload whose object is in the storage: it comes to
what binding the file does. -/
theorem wp_completeUpload {Q : FileView → FilesState → Prop} {E : Thrown → FilesState → Prop}
    (hfile : s.files.lookup dto.fileId = some columns) (howner : columns.ownerId = user.sub)
    (hobject : columns.key ∈ s.objects)
    (hE : ∀ u o c e, F u o c → c.failure o = some e → ∀ v, SameTables s v → E e v)
    (hattach : ∀ t, SameTables s t →
      (attachFileToDomain dto ⟨{ columns with status := .ready }, dto.fileId⟩ user).wp
        (Prog.unblocked fileStore F i)
        (fun file u => (awaited (.saveFile file)).wp (Prog.unblocked fileStore F i)
          (fun saved => Q ⟨saved, s3.buildPublicUrl saved.key⟩) E u) E t) :
    (completeUpload s3 dto user).wp (Prog.unblocked fileStore F i) Q E s := by
  refine (Prog.wp_bind _ _ _ _ _).mpr ((Prog.wp_bind _ _ _ _ _).mpr (wp_awaited ?_ ?_))
  · intro c e hc hfailure
    exact hE _ _ _ _ hc hfailure _ ((SameTables.refl s).arrived c)
  · intro c _ _
    refine ⟨_, _, rfl, ?_⟩
    have hrow : (s.arrived c).files.lookup dto.fileId = some columns := hfile
    rw [hrow]
    simp only [Prog.Outcome, Option.map_some, Prog.pure_eq, Prog.wp_ret, assertOwner, howner,
      ne_eq, not_true_eq_false, if_false, Prog.ret_bind]
    refine (Prog.wp_bind _ _ _ _ _).mpr ?_
    refine wp_checkObject ((SameTables.refl s).arrived c) (List.mem_append_left _ hobject) hE ?_
    intro t ht
    refine (Prog.wp_bind _ _ _ _ _).mpr (Prog.wp_mono (hattach t ht) ?_ (fun _ _ h => h))
    intro file u hsave
    exact (Prog.wp_bind _ _ _ _ _).mpr hsave

theorem perform_updateUser {c : FilesChoice} {id fileId : String}
    (hrow : (s.users.lookup id).isSome) (hfile : (s.files.lookup fileId).isSome) :
    s.perform c (.updateUser id fileId) =
      some (.ok 1, { s with users := s.users.insert id ⟨some fileId, c.now⟩ }) := by
  simp only [FilesState.perform, Option.isNone_eq_false_iff.mpr hrow,
    Option.isNone_eq_false_iff.mpr hfile, Bool.false_eq_true, if_false]

theorem perform_updateProduct {c : FilesChoice} {id fileId : String}
    (hrow : (s.products.lookup id).isSome) (hfile : (s.files.lookup fileId).isSome) :
    s.perform c (.updateProduct id fileId) =
      some (.ok 1, { s with products := s.products.insert id ⟨some fileId, c.now⟩ }) := by
  simp only [FilesState.perform, Option.isNone_eq_false_iff.mpr hrow,
    Option.isNone_eq_false_iff.mpr hfile, Bool.false_eq_true, if_false]

theorem wp_saveFile {file : FileRecord} (hid : file.id = dto.fileId) (hstatus : file.status = .ready)
    (hlink : ∃ now, s.link dto user = some (some dto.fileId, now)) :
    (awaited (.saveFile file)).wp (Prog.unblocked fileStore Calm i)
      (fun _ t => BoundAsAsked t dto user) (fun _ _ => False) s := by
  apply wp_calm
  intro c
  refine ⟨_, _, rfl, ⟨_, by rw [← hid]; exact AList.lookup_insert _, ?_⟩, hlink⟩
  rw [FileColumns.saved]
  split
  · exact hstatus
  · exact hstatus

theorem complete_passed (hdto : Binding dto) (hfile : s.files.lookup dto.fileId = some columns)
    (howner : columns.ownerId = user.sub) (hobject : columns.key ∈ s.objects)
    (hpasses : PassesKeyCheck columns.key dto user) (htarget : TargetExists s dto user) :
    (completeUpload s3 dto user).wp (Prog.unblocked fileStore Calm i)
      (fun _ t => BoundAsAsked t dto user) (fun _ _ => False) s := by
  refine wp_completeUpload hfile howner hobject ?_ ?_
  · intro _ _ c e hcalm hfailure
    rw [Calm, hfailure] at hcalm
    cases hcalm
  intro t ht
  have hrow : (t.files.lookup dto.fileId).isSome := by rw [ht.files, hfile, Option.isSome_some]
  cases hdto with
  | avatar fileId productId =>
    rw [PassesKeyCheck, if_pos rfl] at hpasses
    rw [TargetExists, if_pos rfl, ← ht.users] at htarget
    simp only [attachFileToDomain, if_pos, hpasses, Prog.pure_eq, Prog.ret_bind]
    refine (Prog.wp_bind _ _ _ _ _).mpr (wp_calm ?_)
    intro c
    refine ⟨1, _, perform_updateUser htarget hrow, wp_saveFile rfl rfl ⟨c.now, ?_⟩⟩
    rw [FilesState.link, if_pos rfl, AList.lookup_insert]
    rfl
  | image fileId productId given opaqueId =>
    have hgiven := truthy_given given
    rw [PassesKeyCheck, if_neg image_ne_avatar] at hpasses
    rw [TargetExists, if_neg image_ne_avatar, ← ht.products] at htarget
    obtain ⟨_, hsame, hpasses⟩ := hpasses
    obtain rfl := Option.some.inj hsame
    obtain ⟨_, hsame, htarget⟩ := htarget
    obtain rfl := Option.some.inj hsame
    simp only [attachFileToDomain, if_neg image_ne_avatar, hgiven, hpasses, Prog.pure_eq,
      Prog.ret_bind]
    refine (Prog.wp_bind _ _ _ _ _).mpr (wp_calm ?_)
    intro c
    refine ⟨1, _, perform_updateProduct htarget hrow, wp_saveFile rfl rfl ⟨c.now, ?_⟩⟩
    rw [FilesState.link, if_neg image_ne_avatar, hgiven, Option.bind_some, AList.lookup_insert]
    rfl

theorem complete_refused (hdto : Binding dto) (hfile : s.files.lookup dto.fileId = some columns)
    (howner : columns.ownerId = user.sub) (hobject : columns.key ∈ s.objects)
    (hrefused : ¬ PassesKeyCheck columns.key dto user) :
    (completeUpload s3 dto user).wp (Prog.unblocked fileStore F i)
      (fun _ _ => False) (fun _ t => SameTables s t) s := by
  refine wp_completeUpload hfile howner hobject (fun _ _ _ _ _ _ _ h => h) ?_
  intro t ht
  cases hdto with
  | avatar fileId productId =>
    rw [PassesKeyCheck, if_pos rfl, assertAvatarKey_iff] at hrefused
    simp only [attachFileToDomain, if_pos, assertAvatarKeyBelongsToOwner, hrefused]
    exact ht
  | image fileId productId given opaqueId =>
    have hgiven := truthy_given given
    have hkey : ¬ startsWith columns.key (productPrefix productId) = true := by
      intro hkey
      rw [PassesKeyCheck, if_neg image_ne_avatar] at hrefused
      exact hrefused ⟨productId, rfl, assertProductKey_iff.mpr hkey⟩
    simp only [attachFileToDomain, if_neg image_ne_avatar, hgiven, assertProductKeyMatchesTarget, hkey]
    exact ht

end Complete

/-- Whoever presigned an upload and has put its object into the storage: a
binding passes the key check exactly if the upload was presigned for it. It then
succeeds where its target exists and no call fails, and else it changes nothing. -/
theorem completeUpload_follows_key (s3 : S3Service) {user : AuthUser} {upload : PresignFileDto}
    {s₀ s₁ s : FilesState} {chs : List FilesChoice} {presigned : PresignedUpload}
    {turns : List FilesTurn} (hids : ∀ productId ∈ upload.productId, Opaque productId)
    (hpresign : (createPresignedUpload s3 user upload).eval fileStore 0 s₀ chs =
      some (.ok presigned, s₁))
    (hturns : s₁.turns s3 turns = some s) (hobject : presigned.key ∈ s.objects)
    {dto : CompleteUploadDto} {caller : AuthUser} (hcaller : caller.sub = user.sub)
    (hdto : Binding dto) (hfile : dto.fileId = presigned.fileId) :
    (PassesKeyCheck presigned.key dto caller ↔ PresignedFor upload dto) ∧
      (PassesKeyCheck presigned.key dto caller → TargetExists s dto caller →
        (completeUpload s3 dto caller).wp (Prog.unblocked fileStore Calm 0)
          (fun _ t => BoundAsAsked t dto caller) (fun _ _ => False) s) ∧
      (¬ PassesKeyCheck presigned.key dto caller →
        (completeUpload s3 dto caller).wp (Prog.unblocked fileStore (fun _ _ _ => True) 0)
          (fun _ _ => False) (fun _ t => SameTables s t) s) := by
  rcases createPresignedUpload_cases hpresign with
    ⟨_, e, he⟩ | ⟨id, columns, _, hcolumns, _, _, _, hfiles, hresult⟩
  case inl => cases he
  obtain ⟨hid, hkey⟩ := hresult presigned rfl
  have hstored : s₁.files.lookup id = some columns := by rw [hfiles, AList.lookup_insert]
  have huploaded : Uploaded s id columns.key columns.ownerId :=
    Uploaded.turns ⟨columns, hstored, rfl, rfl⟩ hturns
  obtain ⟨now, hrow, hnow, howner⟩ := huploaded
  rw [hkey] at hobject ⊢
  rw [← hid, ← hfile] at hrow
  rw [← hnow] at hobject
  have howner : now.ownerId = caller.sub := howner.trans (hcolumns.owner.trans hcaller.symm)
  refine ⟨hcolumns.passes_iff hids hdto hcaller, ?_, ?_⟩
  · intro hpasses htarget
    exact complete_passed hdto hrow howner hobject (hnow ▸ hpasses) htarget
  · intro hrefused
    exact complete_refused hdto hrow howner hobject (hnow ▸ hrefused)

def annUpload : PresignFileDto := ⟨"image/png", .finite 5, "avatar", none⟩

/-- A call that is served, while objects appear in the storage. -/
def arriving (keys : List String) (id uuid : String) : FilesChoice :=
  ⟨keys, none, none, id, uuid, 5, "https://upload"⟩

def annPresigning : List FilesChoice :=
  [arriving [] "" "1", arriving [] "file-1" "", arriving [] "" ""]

def annArrival : List FilesTurn :=
  [⟨.completeUpload ⟨"file-2", "avatar", none⟩ annUser,
    [arriving ["users/ann/avatars/1.png"] "" ""]⟩]

theorem completeUpload_follows_key_avatar : ∃ presigned s₁ s,
    (createPresignedUpload penS3 annUser annUpload).eval fileStore 0 penUser annPresigning =
        some (.ok presigned, s₁) ∧ s₁.turns penS3 annArrival = some s ∧
      TargetExists s annAvatar annUser ∧ PassesKeyCheck presigned.key annAvatar annUser ∧
      (completeUpload penS3 annAvatar annUser).wp (Prog.unblocked fileStore Calm 0)
        (fun _ t => BoundAsAsked t annAvatar annUser) (fun _ _ => False) s := by
  have hrun : ((createPresignedUpload penS3 annUser annUpload).eval fileStore 0 penUser
      annPresigning).map (fun x => (x.1.toOption.map (fun up => (up.fileId, up.key)),
        (x.2.turns penS3 annArrival).map (fun s => (s.objects, (s.users.lookup "ann").isSome)))) =
      some (some ("file-1", "users/ann/avatars/1.png"),
        some (["users/ann/avatars/1.png"], true)) := by decide +kernel
  obtain ⟨⟨r, s₁⟩, hpresign, hafter⟩ := Option.map_eq_some_iff.mp hrun
  obtain ⟨hresult, hturns⟩ := Prod.mk.inj hafter
  obtain ⟨s, hs, hobjects⟩ := Option.map_eq_some_iff.mp hturns
  obtain ⟨hobjects, huser⟩ := Prod.mk.inj hobjects
  obtain ⟨presigned, hok, hup⟩ := Option.map_eq_some_iff.mp hresult
  obtain ⟨hid, hkey⟩ := Prod.mk.inj hup
  cases r with
  | error e => cases hok
  | ok up =>
    obtain rfl := Option.some.inj hok
    have htarget : TargetExists s annAvatar annUser := by
      rw [TargetExists, if_pos (by decide)]
      exact huser
    have hfollows := completeUpload_follows_key penS3 (fun _ h => by cases h) hpresign hs
      (by rw [hobjects, hkey]; exact List.mem_singleton_self _) rfl (.avatar "file-1" none) hid.symm
    have hpasses := hfollows.1.mpr ⟨rfl, nofun⟩
    exact ⟨up, s₁, s, hpresign, hs, htarget, hpasses, hfollows.2.1 hpasses htarget⟩

end Ecomm
