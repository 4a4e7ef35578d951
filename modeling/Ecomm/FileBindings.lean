import Ecomm.FileUploads

/-! What holds between users, products, files and the storage after any calls
of `createPresignedUpload` and `completeUpload`. -/

namespace Ecomm

open Concurrent FilesService

inductive FilesCall where
  | createPresignedUpload (user : AuthUser) (dto : PresignFileDto)
  | completeUpload (dto : CompleteUploadDto) (user : AuthUser)

/-- A call, and what the environment brings to each step of it. -/
structure FilesTurn where
  call : FilesCall
  choices : List FilesChoice

def FilesState.turn (s3 : S3Service) (s : FilesState) (t : FilesTurn) : Option FilesState :=
  match t.call with
  | .createPresignedUpload user dto =>
    ((FilesService.createPresignedUpload s3 user dto).eval fileStore 0 s t.choices).map (·.2)
  | .completeUpload dto user =>
    ((FilesService.completeUpload s3 dto user).eval fileStore 0 s t.choices).map (·.2)

def FilesState.turns (s3 : S3Service) : FilesState → List FilesTurn → Option FilesState
  | s, [] => some s
  | s, t :: ts => (s.turn s3 t).bind (fun s' => s'.turns s3 ts)

/-- The text of an id has no slash. -/
def Opaque (id : String) : Prop := '/' ∉ id.toList

instance (id : String) : Decidable (Opaque id) := inferInstanceAs (Decidable (¬ _))

def FilesCall.Opaque : FilesCall → Prop
  | createPresignedUpload user dto =>
    Ecomm.Opaque user.sub ∧ ∀ productId ∈ dto.productId, Ecomm.Opaque productId
  | completeUpload dto user =>
    Ecomm.Opaque user.sub ∧ ∀ productId ∈ dto.productId, Ecomm.Opaque productId

section Keys

theorem startsWith_iff {key expectedPrefix : String} :
    startsWith key expectedPrefix = true ↔ expectedPrefix.toList <+: key.toList := by
  rw [startsWith, List.isPrefixOf_iff_prefix]

theorem takeWhile_segment {segment rest : List Char} (h : '/' ∉ segment) :
    (segment ++ '/' :: rest).takeWhile (· ≠ '/') = segment := by
  have hall : ∀ c ∈ segment, decide (c ≠ '/') = true :=
    fun c hc => decide_eq_true (fun he => h (he ▸ hc))
  rw [List.takeWhile_append_of_pos hall]
  simp

theorem productPrefix_toList (p : String) : (productPrefix p).toList =
    "products/".toList ++ (p.toList ++ '/' :: "images/".toList) := by
  have hslash : "/images/".toList = '/' :: "images/".toList := by decide
  rw [productPrefix, String.toList_append, String.toList_append, hslash, List.append_assoc]

theorem productPrefix_inj {p q key : String} (hp : Opaque p) (hq : Opaque q)
    (hkp : startsWith key (productPrefix p) = true) (hkq : startsWith key (productPrefix q) = true) :
    p = q := by
  rw [startsWith_iff, productPrefix_toList] at hkp hkq
  obtain ⟨x, hx⟩ := hkp
  obtain ⟨y, hy⟩ := hkq
  have hsame := hx.trans hy.symm
  simp only [List.append_assoc, List.append_cancel_left_eq, List.cons_append] at hsame
  have htake := congrArg (List.takeWhile (· ≠ '/')) hsame
  rw [takeWhile_segment hp, takeWhile_segment hq] at htake
  exact String.toList_inj.mp htake

theorem avatar_ne_product {u p key : String} (hu : startsWith key (avatarPrefix u) = true)
    (hp : startsWith key (productPrefix p) = true) : False := by
  rw [startsWith_iff] at hu hp
  obtain ⟨x, hx⟩ := hu
  obtain ⟨y, hy⟩ := hp
  have husers : "users/".toList = 'u' :: "sers/".toList := by decide
  have hproducts : "products/".toList = 'p' :: "roducts/".toList := by decide
  have hsame := hx.trans hy.symm
  simp only [avatarPrefix, productPrefix, String.toList_append, List.append_assoc, husers,
    hproducts, List.cons_append, List.cons.injEq] at hsame
  exact absurd hsame.1 (by decide)

end Keys

structure ValidUpload (dto : PresignFileDto) : Prop where
  contentType : dto.contentType ∈ allowedContentTypes
  size : ∃ n : Nat, dto.sizeBytes = .finite n ∧ 1 ≤ n ∧ n ≤ 5 * 1024 * 1024
  kind : dto.kind = "avatar" ∨
    dto.kind = "product-image" ∧ ∃ productId, truthy dto.productId = some productId

structure Presigned (user : AuthUser) (dto : PresignFileDto) (file : FileColumns) : Prop where
  valid : ValidUpload dto
  owner : file.ownerId = user.sub
  size : file.size = dto.sizeBytes
  contentType : file.contentType = dto.contentType
  extension : ∃ ext, extensionByType dto.contentType = some ext ∧
    ("." ++ ext).toList <:+ file.key.toList
  key : dto.kind = "avatar" ∧ startsWith file.key (avatarPrefix user.sub) = true ∨
    dto.kind = "product-image" ∧ ∃ productId, dto.productId = some productId ∧
      startsWith file.key (productPrefix productId) = true

section Presign

variable {s t : FilesState} {i : Nat} {chs : List FilesChoice}

theorem truthy_eq {text : Option String} {v : String} (h : truthy text = some v) :
    text = some v := (Option.filter_eq_some_iff.mp h).1

theorem assertCanPresign_alone {user : AuthUser} {kind : String} {a : Except Thrown Unit}
    (h : (assertCanPresign user kind).eval fileStore i s chs = some (a, t)) : t = s := by
  rw [assertCanPresign] at h
  split_ifs at h
  · exact (Prog.eval_ret h).2.2
  · exact (Prog.eval_ret h).2.2
  · exact (Prog.eval_raise h).2.2
  · exact (Prog.eval_raise h).2.2

theorem size_of_valid {size : JsNumber} (hpositive : isPositiveInteger size = true)
    (hbound : ¬ exceeds size maxImageBytes = true) :
    ∃ n : Nat, size = .finite n ∧ 1 ≤ n ∧ n ≤ 5 * 1024 * 1024 := by
  cases size with
  | nan | infinite => cases hpositive
  | finite x =>
    simp only [isPositiveInteger, Bool.and_eq_true, decide_eq_true_eq] at hpositive
    simp only [exceeds, decide_eq_true_eq, not_lt] at hbound
    obtain ⟨hden, hpos⟩ := hpositive
    have hnum : (x.num : Rat) = x := Rat.coe_int_num_of_den_eq_one hden
    have hnonneg : 0 < x.num := Rat.num_pos.mpr hpos
    have hnat : ((x.num.toNat : Nat) : Int) = x.num := Int.toNat_of_nonneg hnonneg.le
    have hx : ((x.num.toNat : Nat) : Rat) = x := by
      rw [← Int.cast_natCast, hnat, hnum]
    refine ⟨x.num.toNat, by rw [hx], by omega, ?_⟩
    rw [← hx] at hbound
    exact_mod_cast hbound

theorem validateUploadInput_alone {dto : PresignFileDto} {a : Except Thrown Unit}
    (h : (validateUploadInput dto).eval fileStore i s chs = some (a, t)) :
    SameTables s t ∧ (a = .ok () → ValidUpload dto) := by
  have hthrow : ∀ {e : Thrown} {u : FilesState} {chs : List FilesChoice}, SameTables s u →
      (throw e : Files Unit).eval fileStore i u chs = some (a, t) →
      SameTables s t ∧ (a = .ok () → ValidUpload dto) := by
    intro e u chs hu he
    obtain ⟨_, rfl, rfl⟩ := Prog.eval_raise he
    exact ⟨hu, nofun⟩
  rw [validateUploadInput] at h
  split_ifs at h with htype hsize hbound hkind hproduct himage
  · exact hthrow (.refl s) h
  · exact hthrow (.refl s) h
  · exact hthrow (.refl s) h
  · cases htarget : truthy dto.productId with
    | none =>
      rw [htarget] at h
      exact hthrow (.refl s) h
    | some productId =>
      rw [htarget] at h
      have hvalid : ValidUpload dto :=
        ⟨by simpa using htype, size_of_valid hsize hbound, .inr ⟨himage, productId, htarget⟩⟩
      obtain ⟨first, rest, found, u, rfl, hfirst, hrest⟩ := Prog.eval_bind h
      obtain ⟨_, _, hu, _⟩ := read_alone (fun _ _ => rfl) hfirst
      rcases hrest with ⟨v, rfl, hrest⟩ | ⟨e, rfl, rfl, rfl, rfl⟩
      · cases v with
        | false => exact hthrow hu hrest
        | true =>
          obtain ⟨_, rfl, rfl⟩ := Prog.eval_ret hrest
          exact ⟨hu, fun _ => hvalid⟩
      · exact ⟨hu, nofun⟩
  · obtain ⟨_, rfl, rfl⟩ := Prog.eval_ret h
    have havatar : dto.kind = "avatar" := by
      by_contra hne
      exact hkind ⟨hne, himage⟩
    exact ⟨.refl _, fun _ => ⟨by simpa using htype, size_of_valid hsize hbound, .inl havatar⟩⟩
  · exact hthrow (.refl s) h
  · exact hthrow (.refl s) h

theorem startsWith_append {expectedPrefix rest : String} :
    startsWith (expectedPrefix ++ rest) expectedPrefix = true := by
  rw [startsWith_iff, String.toList_append]
  exact List.prefix_append _ _

theorem objectKey_parts {folder fileId ext : String} :
    startsWith (folder ++ fileId ++ "." ++ ext) folder = true ∧
      ("." ++ ext).toList <:+ (folder ++ fileId ++ "." ++ ext).toList := by
  constructor
  · rw [String.append_assoc, String.append_assoc]
    exact startsWith_append
  · have hsplit : folder ++ fileId ++ "." ++ ext = folder ++ fileId ++ ("." ++ ext) :=
      String.append_assoc
    rw [hsplit]
    exact ⟨(folder ++ fileId).toList, String.toList_append.symm⟩

theorem buildObjectKey_alone {kind userId contentType : String} {productId : Option String}
    {a : Except Thrown String}
    (h : (buildObjectKey kind userId contentType productId).eval fileStore i s chs = some (a, t)) :
    SameTables s t ∧ ∀ key, a = .ok key →
      ("." ++ (extensionByType contentType).getD "bin").toList <:+ key.toList ∧
      (kind = "avatar" ∧ startsWith key (avatarPrefix userId) = true ∨
        kind ≠ "avatar" ∧ ∃ target, truthy productId = some target ∧
          startsWith key (productPrefix target) = true) := by
  obtain ⟨first, rest, uuid, u, rfl, hfirst, hrest⟩ := Prog.eval_bind h
  obtain ⟨_, _, hsame, _⟩ := read_alone (fun _ _ => rfl) hfirst
  rcases hrest with ⟨fileId, rfl, hrest⟩ | ⟨e, rfl, rfl, rfl, rfl⟩
  case inr => exact ⟨hsame, nofun⟩
  by_cases hkind : kind = "avatar"
  · rw [if_pos hkind] at hrest
    obtain ⟨_, rfl, rfl⟩ := Prog.eval_ret hrest
    refine ⟨hsame, fun key hkey => ?_⟩
    obtain rfl := Except.ok.inj hkey
    exact ⟨objectKey_parts.2, .inl ⟨hkind, objectKey_parts.1⟩⟩
  · rw [if_neg hkind] at hrest
    cases htarget : truthy productId with
    | none =>
      rw [htarget] at hrest
      obtain ⟨_, rfl, rfl⟩ := Prog.eval_raise hrest
      exact ⟨hsame, nofun⟩
    | some target =>
      rw [htarget] at hrest
      obtain ⟨_, rfl, rfl⟩ := Prog.eval_ret hrest
      refine ⟨hsame, fun key hkey => ?_⟩
      obtain rfl := Except.ok.inj hkey
      exact ⟨objectKey_parts.2, .inr ⟨hkind, target, rfl, objectKey_parts.1⟩⟩

theorem extension_of_allowed {contentType : String} (h : contentType ∈ allowedContentTypes) :
    ∃ ext, extensionByType contentType = some ext := by
  simp only [allowedContentTypes, List.mem_cons, List.not_mem_nil, or_false] at h
  rcases h with rfl | rfl | rfl
  · exact ⟨"jpg", rfl⟩
  · exact ⟨"png", rfl⟩
  · exact ⟨"webp", rfl⟩

theorem insertFile_alone {draft : FileDraft} {a : Except Thrown FileRecord}
    (h : (awaited (.insertFile draft)).eval fileStore i s chs = some (a, t)) :
    (SameTables s t ∧ ∃ e, a = .error e) ∨ ∃ c : FilesChoice, s.files.lookup c.id = none ∧
      a = .ok ⟨draft.columns c.now, c.id⟩ ∧ t.users = s.users ∧ t.products = s.products ∧
      t.files = s.files.insert c.id (draft.columns c.now) := by
  obtain ⟨c, rfl, hexec⟩ := Prog.eval_await h
  rcases exec_files_cases hexec with ⟨e, _, ha, hsame, _⟩ | ⟨_, hperform⟩
  · exact .inl ⟨hsame, e, ha⟩
  · simp only [FilesState.perform] at hperform
    split at hperform
    · cases hperform
    · next hfresh =>
      split_ifs at hperform
      · obtain ⟨rfl, rfl⟩ := Prod.mk.inj (Option.some.inj hperform)
        exact .inl ⟨⟨rfl, rfl, rfl⟩, _, rfl⟩
      · obtain ⟨rfl, rfl⟩ := Prod.mk.inj (Option.some.inj hperform)
        exact .inl ⟨⟨rfl, rfl, rfl⟩, _, rfl⟩
      · obtain ⟨rfl, rfl⟩ := Prod.mk.inj (Option.some.inj hperform)
        exact .inr ⟨c, by simpa using hfresh, rfl, rfl, rfl, rfl⟩

/-- At most one pending file is new, whose columns are those of the upload. -/
theorem createPresignedUpload_cases {s3 : S3Service} {user : AuthUser} {dto : PresignFileDto}
    {r : Except Thrown PresignedUpload}
    (h : (createPresignedUpload s3 user dto).eval fileStore i s chs = some (r, t)) :
    (SameTables s t ∧ ∃ e, r = .error e) ∨ ∃ id columns, s.files.lookup id = none ∧
      Presigned user dto columns ∧ columns.status = .pending ∧ t.users = s.users ∧
      t.products = s.products ∧ t.files = s.files.insert id columns ∧
      ∀ upload, r = .ok upload → upload.fileId = id ∧ upload.key = columns.key := by
  obtain ⟨first, rest, a, s₁, rfl, hassert, h₁⟩ := Prog.eval_bind h
  obtain rfl := assertCanPresign_alone hassert
  rcases h₁ with ⟨_, rfl, h₁⟩ | ⟨e, rfl, rfl, rfl, rfl⟩
  case inr => exact .inl ⟨.refl _, e, rfl⟩
  obtain ⟨first, rest, a, s₂, rfl, hvalidate, h₂⟩ := Prog.eval_bind h₁
  obtain ⟨hsame₂, hvalid⟩ := validateUploadInput_alone hvalidate
  rcases h₂ with ⟨_, rfl, h₂⟩ | ⟨e, rfl, rfl, rfl, rfl⟩
  case inr => exact .inl ⟨hsame₂, e, rfl⟩
  have hvalid := hvalid rfl
  obtain ⟨first, rest, a, s₃, rfl, hbuild, h₃⟩ := Prog.eval_bind h₂
  obtain ⟨hsame₃, hkey⟩ := buildObjectKey_alone hbuild
  have hsame₃ := hsame₂.trans hsame₃
  rcases h₃ with ⟨key, rfl, h₃⟩ | ⟨e, rfl, rfl, rfl, rfl⟩
  case inr => exact .inl ⟨hsame₃, e, rfl⟩
  obtain ⟨hsuffix, hfolder⟩ := hkey key rfl
  obtain ⟨first, rest, a, s₄, rfl, hinsert, h₄⟩ := Prog.eval_bind h₃
  rcases insertFile_alone hinsert with
    ⟨hsame₄, e, rfl⟩ | ⟨c, hfresh, rfl, husers, hproducts, hfiles⟩
  · rcases h₄ with ⟨_, hsaved, _⟩ | ⟨e', _, _, rfl, rfl⟩
    · cases hsaved
    · exact .inl ⟨hsame₃.trans hsame₄, e', rfl⟩
  rcases h₄ with ⟨saved, hsaved, h₄⟩ | ⟨_, hfailed, _⟩
  case inr => cases hfailed
  obtain rfl := Except.ok.inj hsaved
  obtain ⟨first, rest, a, s₅, rfl, hpresign, h₅⟩ := Prog.eval_bind h₄
  obtain ⟨_, _, hsame₅, _⟩ := read_alone (fun _ _ => rfl) hpresign
  have hlast : SameTables s₄ t ∧ ∀ upload, r = .ok upload → upload.fileId = c.id ∧
      upload.key = key := by
    rcases h₅ with ⟨url, rfl, h₅⟩ | ⟨e, rfl, rfl, rfl, rfl⟩
    · obtain ⟨_, rfl, rfl⟩ := Prog.eval_ret h₅
      refine ⟨hsame₅, fun upload hupload => ?_⟩
      obtain rfl := Except.ok.inj hupload
      exact ⟨rfl, rfl⟩
    · exact ⟨hsame₅, nofun⟩
  refine .inr ⟨c.id, _, by rw [← hsame₃.files]; exact hfresh, ?_, rfl,
    hlast.1.users.trans (husers.trans hsame₃.users),
    hlast.1.products.trans (hproducts.trans hsame₃.products),
    by rw [hlast.1.files, hfiles, hsame₃.files], hlast.2⟩
  obtain ⟨ext, hext⟩ := extension_of_allowed hvalid.contentType
  refine ⟨hvalid, rfl, rfl, rfl, ⟨ext, hext, ?_⟩, ?_⟩
  · rw [hext] at hsuffix
    exact hsuffix
  · rcases hfolder with havatar | ⟨hkind, target, htarget, hfolder⟩
    · exact .inl havatar
    · rcases hvalid.kind with havatar | ⟨himage, _⟩
      · exact absurd havatar hkind
      · exact .inr ⟨himage, target, truthy_eq htarget, hfolder⟩

end Presign

structure BoundColumns (columns saved : FileColumns) (entityId : String) : Prop where
  owner : saved.ownerId = columns.ownerId
  key : saved.key = columns.key
  size : saved.size = columns.size
  contentType : saved.contentType = columns.contentType
  status : saved.status = .ready
  entityId : saved.entityId = some entityId

theorem bound_saved (columns : FileColumns) (entityId : String) (now : Nat) :
    BoundColumns columns ((columns.bound entityId).saved (some columns) now) entityId := by
  rw [FileColumns.saved]
  split
  · exact ⟨rfl, rfl, rfl, rfl, rfl, rfl⟩
  · exact ⟨rfl, rfl, rfl, rfl, rfl, rfl⟩

/-- All that a turn does to the tables when no call of a repository fails. -/
inductive Turned (s t : FilesState) (turn : FilesTurn) : Prop where
  | idle (same : SameTables s t)
  | presigned (user : AuthUser) (dto : PresignFileDto) (id : String) (columns : FileColumns)
      (call : turn.call = .createPresignedUpload user dto)
      (columns_presigned : Presigned user dto columns) (status : columns.status = .pending)
      (fresh : s.files.lookup id = none) (users : t.users = s.users)
      (products : t.products = s.products) (files : t.files = s.files.insert id columns)
  | completed (dto : CompleteUploadDto) (user : AuthUser) (columns saved : FileColumns)
      (entityId : String) (now : Nat) (call : turn.call = .completeUpload dto user)
      (found : s.files.lookup dto.fileId = some columns) (owner : columns.ownerId = user.sub)
      (object : columns.status = .ready ∨
        columns.key ∈ s.objects ++ (turn.choices.take 2).flatMap (·.appeared))
      (attached : Attached dto user ⟨{ columns with status := .ready }, dto.fileId⟩ now s t entityId)
      (bound : BoundColumns columns saved entityId)
      (files : t.files = s.files.insert dto.fileId saved)

theorem Attached.congr {dto : CompleteUploadDto} {user : AuthUser} {file : FileRecord} {now : Nat}
    {s t u : FilesState} {entityId : String} (h : Attached dto user file now s t entityId)
    (husers : u.users = t.users) (hproducts : u.products = t.products) :
    Attached dto user file now s u entityId := by
  cases h with
  | avatar bindTo key found users products =>
    exact .avatar bindTo key found (husers.trans users) (hproducts.trans products)
  | image _ bindTo target key found users products =>
    exact .image entityId bindTo target key found (husers.trans users) (hproducts.trans products)

theorem turn_cases {s3 : S3Service} {s t : FilesState} {turn : FilesTurn}
    (hserved : ∀ c ∈ turn.choices, c.fault = none) (h : s.turn s3 turn = some t) :
    Turned s t turn := by
  rw [FilesState.turn] at h
  cases hcall : turn.call with
  | createPresignedUpload user dto =>
    rw [hcall] at h
    obtain ⟨⟨r, u⟩, hrun, rfl⟩ := Option.map_eq_some_iff.mp h
    rcases createPresignedUpload_cases hrun with
      ⟨hsame, _⟩ | ⟨id, columns, hfresh, hpresigned, hstatus, husers, hproducts, hfiles, _⟩
    · exact .idle hsame
    · exact .presigned user dto id columns hcall hpresigned hstatus hfresh husers hproducts hfiles
  | completeUpload dto user =>
    rw [hcall] at h
    obtain ⟨⟨r, u⟩, hrun, rfl⟩ := Option.map_eq_some_iff.mp h
    rcases completeUpload_cases hrun with
      ⟨hsame, _⟩ | ⟨columns, entityId, before, update, save, middle, hdone⟩
    · exact .idle hsame
    · rcases hdone.saved with ⟨hfault, _⟩ | ⟨_, _, husers, hproducts, hfiles⟩
      · rw [hserved save (by rw [hdone.choices]; simp)] at hfault
        cases hfault
      · refine .completed dto user columns _ entityId update.now hcall hdone.found hdone.owner ?_
          (hdone.attached.congr husers hproducts) (bound_saved columns entityId save.now) hfiles
        rcases hdone.object with hready | hobject
        · exact .inl hready
        · cases hstatus : columns.status with
          | ready => exact .inl rfl
          | pending =>
            have hlength : before.length = 2 := by
              have hsave := hdone.length
              rw [saveAt, hdone.found] at hsave
              simp only [Option.elim_some, hstatus, checks, if_pos] at hsave
              omega
            right
            rw [hdone.choices, List.take_left' hlength]
            exact hobject

theorem lookup_insert_cases {β : Type} {m : AList (fun _ : String => β)} {id key : String}
    {v w : β} (h : (m.insert key v).lookup id = some w) :
    (id = key ∧ w = v) ∨ (id ≠ key ∧ m.lookup id = some w) := by
  by_cases hid : id = key
  · rw [hid, AList.lookup_insert] at h
    exact .inl ⟨hid, (Option.some.inj h).symm⟩
  · rw [AList.lookup_insert_ne hid] at h
    exact .inr ⟨hid, h⟩

structure AvatarOf (userId : String) (columns : FileColumns) : Prop where
  owner : columns.ownerId = userId
  status : columns.status = .ready
  entityId : columns.entityId = some userId
  key : startsWith columns.key (avatarPrefix userId) = true

structure ImageOf (productId : String) (columns : FileColumns) : Prop where
  status : columns.status = .ready
  entityId : columns.entityId = some productId
  key : startsWith columns.key (productPrefix productId) = true

structure LinksBound (s : FilesState) : Prop where
  avatar : ∀ userId link fileId, s.users.lookup userId = some link →
    link.avatarFileId = some fileId →
    ∃ columns, s.files.lookup fileId = some columns ∧ AvatarOf userId columns
  image : ∀ productId link fileId, s.products.lookup productId = some link →
    link.imageFileId = some fileId → Opaque productId ∧
    ∃ columns, s.files.lookup fileId = some columns ∧ ImageOf productId columns

namespace LinksBound

variable {s t : FilesState}

theorem of_kept (h : LinksBound s) (husers : t.users = s.users) (hproducts : t.products = s.products)
    (hfiles : ∀ id columns, s.files.lookup id = some columns → t.files.lookup id = some columns) :
    LinksBound t where
  avatar userId link fileId huser hlink := by
    rw [husers] at huser
    obtain ⟨columns, hfile, havatar⟩ := h.avatar userId link fileId huser hlink
    exact ⟨columns, hfiles fileId columns hfile, havatar⟩
  image productId link fileId hproduct hlink := by
    rw [hproducts] at hproduct
    obtain ⟨hid, columns, hfile, himage⟩ := h.image productId link fileId hproduct hlink
    exact ⟨hid, columns, hfiles fileId columns hfile, himage⟩

theorem avatar_kept (h : LinksBound s) {written : String} {saved : FileColumns}
    (hfiles : t.files = s.files.insert written saved) {userId : String} {link : UserLink}
    {fileId : String} (huser : s.users.lookup userId = some link)
    (hlink : link.avatarFileId = some fileId)
    (hother : ∀ columns, s.files.lookup written = some columns → ¬ AvatarOf userId columns) :
    ∃ columns, t.files.lookup fileId = some columns ∧ AvatarOf userId columns := by
  obtain ⟨columns, hfile, havatar⟩ := h.avatar userId link fileId huser hlink
  have hne : fileId ≠ written := by
    intro he
    rw [he] at hfile
    exact hother columns hfile havatar
  exact ⟨columns, by rw [hfiles, AList.lookup_insert_ne hne]; exact hfile, havatar⟩

theorem image_kept (h : LinksBound s) {written : String} {saved : FileColumns}
    (hfiles : t.files = s.files.insert written saved) {productId : String} {link : ProductLink}
    {fileId : String} (hproduct : s.products.lookup productId = some link)
    (hlink : link.imageFileId = some fileId)
    (hother : ∀ columns, s.files.lookup written = some columns → Opaque productId →
      ¬ ImageOf productId columns) :
    Opaque productId ∧
      ∃ columns, t.files.lookup fileId = some columns ∧ ImageOf productId columns := by
  obtain ⟨hid, columns, hfile, himage⟩ := h.image productId link fileId hproduct hlink
  have hne : fileId ≠ written := by
    intro he
    rw [he] at hfile
    exact hother columns hfile hid himage
  exact ⟨hid, columns, by rw [hfiles, AList.lookup_insert_ne hne]; exact hfile, himage⟩

theorem turned (h : LinksBound s) {turn : FilesTurn} (hids : turn.call.Opaque)
    (ht : Turned s t turn) : LinksBound t := by
  cases ht with
  | idle same =>
    exact h.of_kept same.users same.products (fun id columns hfile => by rw [same.files, hfile])
  | presigned user dto id columns _ _ _ fresh users products files =>
    refine h.of_kept users products (fun id' columns' hfile => ?_)
    have hne : id' ≠ id := by
      intro he
      rw [he, fresh] at hfile
      cases hfile
    rw [files, AList.lookup_insert_ne hne, hfile]
  | completed dto user columns saved entityId now call found owner object attached bound files =>
    have hsaved : t.files.lookup dto.fileId = some saved := by rw [files, AList.lookup_insert]
    have hcolumns : ∀ columns', s.files.lookup dto.fileId = some columns' → columns' = columns :=
      fun columns' h' => Option.some.inj (h'.symm.trans found)
    cases attached with
    | avatar bindTo key hfound users products =>
      constructor
      · intro userId link fileId huser hlink
        rw [users] at huser
        rcases lookup_insert_cases huser with ⟨rfl, rfl⟩ | ⟨hid, huser⟩
        · obtain rfl := Option.some.inj hlink
          refine ⟨saved, hsaved, bound.owner.trans owner, bound.status, bound.entityId, ?_⟩
          rw [bound.key]
          exact key
        · refine h.avatar_kept files huser hlink (fun columns' h' havatar => ?_)
          obtain rfl := hcolumns columns' h'
          exact hid (havatar.owner.symm.trans owner)
      · intro productId link fileId hproduct hlink
        rw [products] at hproduct
        refine h.image_kept files hproduct hlink (fun columns' h' _ himage => ?_)
        obtain rfl := hcolumns columns' h'
        exact avatar_ne_product key himage.key
    | image _ bindTo target key hfound users products =>
      have hentity : Opaque entityId := by
        rw [call] at hids
        exact hids.2 entityId (truthy_eq target)
      constructor
      · intro userId link fileId huser hlink
        rw [users] at huser
        refine h.avatar_kept files huser hlink (fun columns' h' havatar => ?_)
        obtain rfl := hcolumns columns' h'
        exact avatar_ne_product havatar.key key
      · intro productId link fileId hproduct hlink
        rw [products] at hproduct
        rcases lookup_insert_cases hproduct with ⟨rfl, rfl⟩ | ⟨hid, hproduct⟩
        · obtain rfl := Option.some.inj hlink
          refine ⟨hentity, saved, hsaved, bound.status, bound.entityId, ?_⟩
          rw [bound.key]
          exact key
        · refine h.image_kept files hproduct hlink (fun columns' h' hopaque himage => ?_)
          obtain rfl := hcolumns columns' h'
          exact hid (productPrefix_inj hopaque hentity himage.key key)

end LinksBound

section Runs

variable {s3 : S3Service} {s₀ s : FilesState} {turns : List FilesTurn}

theorem turns_append (more : List FilesTurn) :
    s₀.turns s3 (turns ++ more) = (s₀.turns s3 turns).bind (fun s => s.turns s3 more) := by
  induction turns generalizing s₀ with
  | nil => rfl
  | cons turn turns ih =>
    simp only [List.cons_append, FilesState.turns, Option.bind_assoc]
    exact congrArg _ (funext fun s' => ih)

theorem turns_concat {turn : FilesTurn} {t : FilesState}
    (h : s₀.turns s3 (turns ++ [turn]) = some t) :
    ∃ s, s₀.turns s3 turns = some s ∧ s.turn s3 turn = some t := by
  rw [turns_append] at h
  obtain ⟨s, hs, ht⟩ := Option.bind_eq_some_iff.mp h
  obtain ⟨t', hturn, he⟩ := Option.bind_eq_some_iff.mp ht
  obtain rfl := Option.some.inj he
  exact ⟨s, hs, hturn⟩

theorem turns_induction {P : List FilesTurn → FilesState → Prop} (h₀ : P [] s₀)
    (hserved : ∀ turn ∈ turns, ∀ c ∈ turn.choices, c.fault = none)
    (hstep : ∀ before turn s t, turn ∈ turns → s₀.turns s3 before = some s → P before s →
      s.turn s3 turn = some t → Turned s t turn → P (before ++ [turn]) t)
    (hrun : s₀.turns s3 turns = some s) : P turns s := by
  induction turns using List.reverseRecOn generalizing s with
  | nil =>
    obtain rfl := Option.some.inj hrun
    exact h₀
  | append_singleton turns turn ih =>
    obtain ⟨u, hu, hturn⟩ := turns_concat hrun
    have hmem : turn ∈ turns ++ [turn] := by simp
    have hP : P turns u := ih (fun t ht => hserved t (by simp [ht]))
      (fun before t s₁ s₂ ht => hstep before t s₁ s₂ (by simp [ht])) hu
    exact hstep turns turn u s hmem hu hP hturn (turn_cases (hserved turn hmem) hturn)

/-- The turn completes the upload of a pending file whose object it finds in the
storage, and leaves it ready. -/
structure MarksReady (s3 : S3Service) (s : FilesState) (turn : FilesTurn) (id key : String) :
    Prop where
  call : ∃ dto user, turn.call = .completeUpload dto user ∧ dto.fileId = id
  pending : ∃ columns, s.files.lookup id = some columns ∧ columns.status = .pending ∧
    columns.key = key
  object : key ∈ s.objects ++ (turn.choices.take 2).flatMap (·.appeared)
  ready : ∃ t columns, s.turn s3 turn = some t ∧ t.files.lookup id = some columns ∧
    columns.status = .ready

def MarkedReady (s3 : S3Service) (s₀ : FilesState) (turns : List FilesTurn) (id key : String) :
    Prop :=
  ∃ before turn after s, turns = before ++ turn :: after ∧ s₀.turns s3 before = some s ∧
    MarksReady s3 s turn id key

theorem MarkedReady.concat {id key : String} (h : MarkedReady s3 s₀ turns id key)
    (turn : FilesTurn) : MarkedReady s3 s₀ (turns ++ [turn]) id key := by
  obtain ⟨before, marking, after, u, rfl, hu, hmarks⟩ := h
  exact ⟨before, marking, after ++ [turn], u, by simp, hu, hmarks⟩

structure FileBindings (s3 : S3Service) (s₀ : FilesState) (turns : List FilesTurn)
    (s : FilesState) : Prop where
  file : ∀ id columns, s.files.lookup id = some columns → ∃ turn ∈ turns, ∃ user dto,
    turn.call = .createPresignedUpload user dto ∧ Presigned user dto columns
  avatar : ∀ userId link fileId, s.users.lookup userId = some link →
    link.avatarFileId = some fileId →
    ∃ columns, s.files.lookup fileId = some columns ∧ AvatarOf userId columns
  image : ∀ productId link fileId, s.products.lookup productId = some link →
    link.imageFileId = some fileId →
    ∃ columns, s.files.lookup fileId = some columns ∧ ImageOf productId columns
  ready : ∀ id columns, s.files.lookup id = some columns → columns.status = .ready →
    MarkedReady s3 s₀ turns id columns.key

structure NoUploads (s : FilesState) : Prop where
  files : ∀ id, s.files.lookup id = none
  users : ∀ userId link, s.users.lookup userId = some link → link.avatarFileId = none
  products : ∀ productId link, s.products.lookup productId = some link → link.imageFileId = none

theorem Presigned.of_bound {user : AuthUser} {dto : PresignFileDto} {columns saved : FileColumns}
    {entityId : String} (h : Presigned user dto columns)
    (hbound : BoundColumns columns saved entityId) : Presigned user dto saved where
  valid := h.valid
  owner := hbound.owner.trans h.owner
  size := hbound.size.trans h.size
  contentType := hbound.contentType.trans h.contentType
  extension := by
    rw [hbound.key]
    exact h.extension
  key := by
    rw [hbound.key]
    exact h.key

theorem turns_presigned (h₀ : NoUploads s₀)
    (hserved : ∀ turn ∈ turns, ∀ c ∈ turn.choices, c.fault = none)
    (hrun : s₀.turns s3 turns = some s) :
    ∀ id columns, s.files.lookup id = some columns → ∃ turn ∈ turns, ∃ user dto,
      turn.call = .createPresignedUpload user dto ∧ Presigned user dto columns := by
  refine turns_induction (P := fun turns s => ∀ id columns, s.files.lookup id = some columns →
    ∃ turn ∈ turns, ∃ user dto, turn.call = .createPresignedUpload user dto ∧
      Presigned user dto columns) (fun id columns hfile => ?_) hserved ?_ hrun
  · rw [h₀.files] at hfile
    cases hfile
  intro before turn s t _ _ hP _ hturned id columns hfile
  have hold : ∀ columns, s.files.lookup id = some columns → ∃ turn' ∈ before ++ [turn],
      ∃ user dto, turn'.call = .createPresignedUpload user dto ∧ Presigned user dto columns := by
    intro columns hfile
    obtain ⟨turn', hmem, hpresigned⟩ := hP id columns hfile
    exact ⟨turn', List.mem_append_left _ hmem, hpresigned⟩
  cases hturned with
  | idle same =>
    rw [same.files] at hfile
    exact hold columns hfile
  | presigned user dto id' columns' call hpresigned status fresh users products files =>
    rw [files] at hfile
    rcases lookup_insert_cases hfile with ⟨-, rfl⟩ | ⟨-, hfile⟩
    · exact ⟨turn, by simp, user, dto, call, hpresigned⟩
    · exact hold columns hfile
  | completed dto user columns' saved entityId now call found owner object attached bound files =>
    rw [files] at hfile
    rcases lookup_insert_cases hfile with ⟨rfl, rfl⟩ | ⟨-, hfile⟩
    · obtain ⟨turn', hmem, user', dto', hcall, hpresigned⟩ := hold columns' found
      exact ⟨turn', hmem, user', dto', hcall, hpresigned.of_bound bound⟩
    · exact hold columns hfile

theorem turns_ready (h₀ : NoUploads s₀)
    (hserved : ∀ turn ∈ turns, ∀ c ∈ turn.choices, c.fault = none)
    (hrun : s₀.turns s3 turns = some s) :
    ∀ id columns, s.files.lookup id = some columns → columns.status = .ready →
      MarkedReady s3 s₀ turns id columns.key := by
  refine turns_induction (P := fun turns s => ∀ id columns, s.files.lookup id = some columns →
    columns.status = .ready → MarkedReady s3 s₀ turns id columns.key)
    (fun id columns hfile => ?_) hserved ?_ hrun
  · rw [h₀.files] at hfile
    cases hfile
  intro before turn s t _ hbefore hP hturn hturned id columns hfile hready
  have hold : ∀ columns, s.files.lookup id = some columns → columns.status = .ready →
      MarkedReady s3 s₀ (before ++ [turn]) id columns.key :=
    fun columns hfile hready => (hP id columns hfile hready).concat turn
  cases hturned with
  | idle same =>
    rw [same.files] at hfile
    exact hold columns hfile hready
  | presigned user dto id' columns' _ _ status fresh users products files =>
    rw [files] at hfile
    rcases lookup_insert_cases hfile with ⟨-, rfl⟩ | ⟨-, hfile⟩
    · rw [status] at hready
      cases hready
    · exact hold columns hfile hready
  | completed dto user columns' saved entityId now call found owner object attached bound files =>
    have hfile' := hfile
    rw [files] at hfile
    rcases lookup_insert_cases hfile with ⟨rfl, rfl⟩ | ⟨-, hfile⟩
    · rw [bound.key]
      cases hstatus : columns'.status with
      | ready => exact hold columns' found hstatus
      | pending =>
        have hobject : columns'.key ∈ s.objects ++ (turn.choices.take 2).flatMap (·.appeared) := by
          rcases object with hwas | hfound
          · rw [hstatus] at hwas
            cases hwas
          · exact hfound
        exact ⟨before, turn, [], s, rfl, hbefore, ⟨dto, user, call, rfl⟩,
          ⟨columns', found, hstatus, rfl⟩, hobject, t, columns, hturn, hfile', hready⟩
    · exact hold columns hfile hready

theorem turns_linksBound (h₀ : NoUploads s₀) (hids : ∀ turn ∈ turns, turn.call.Opaque)
    (hserved : ∀ turn ∈ turns, ∀ c ∈ turn.choices, c.fault = none)
    (hrun : s₀.turns s3 turns = some s) : LinksBound s := by
  refine turns_induction (P := fun _ s => LinksBound s) ⟨?_, ?_⟩ hserved ?_ hrun
  · intro userId link fileId huser hlink
    rw [h₀.users userId link huser] at hlink
    cases hlink
  · intro productId link fileId hproduct hlink
    rw [h₀.products productId link hproduct] at hlink
    cases hlink
  · intro before turn s t hmem _ hlinks _ hturned
    exact hlinks.turned (hids turn hmem) hturned

/-- Whatever the users call, files are bound where their keys say. -/
theorem turns_fileBindings (h₀ : NoUploads s₀) (hids : ∀ turn ∈ turns, turn.call.Opaque)
    (hserved : ∀ turn ∈ turns, ∀ c ∈ turn.choices, c.fault = none)
    (hrun : s₀.turns s3 turns = some s) : FileBindings s3 s₀ turns s where
  file := turns_presigned h₀ hserved hrun
  avatar := (turns_linksBound h₀ hids hserved hrun).avatar
  image productId link fileId hproduct hlink :=
    ((turns_linksBound h₀ hids hserved hrun).image productId link fileId hproduct hlink).2
  ready := turns_ready h₀ hserved hrun

end Runs

def penUser : FilesState where
  users := AList.singleton "ann" ⟨none, 0⟩
  products := ∅
  files := ∅
  objects := []

/-- The user uploads an avatar, whose object is in the storage when the upload is
completed. -/
def avatarTurns : List FilesTurn :=
  let stored (keys : List String) (id uuid : String) : FilesChoice :=
    ⟨keys, none, none, id, uuid, 5, "https://upload"⟩
  [⟨.createPresignedUpload annUser ⟨"image/png", .finite 5, "avatar", none⟩,
      [stored [] "" "1", stored [] "file-1" "", stored [] "" ""]⟩,
    ⟨.completeUpload annAvatar annUser,
      [stored ["users/ann/avatars/1.png"] "" "", stored [] "" "", stored [] "" "",
        stored [] "" ""]⟩]

theorem turns_fileBindings_avatar :
    ∃ s, penUser.turns penS3 avatarTurns = some s ∧
      (s.users.lookup "ann").bind UserLink.avatarFileId = some "file-1" ∧
      FileBindings penS3 penUser avatarTurns s := by
  have hrun : (penUser.turns penS3 avatarTurns).map
      (fun s => (s.users.lookup "ann").bind UserLink.avatarFileId) = some (some "file-1") := by
    decide +kernel
  obtain ⟨s, hs, hlink⟩ := Option.map_eq_some_iff.mp hrun
  have hnone : NoUploads penUser := by
    refine ⟨fun id => rfl, fun userId link huser => ?_, fun productId link hproduct => ?_⟩
    · by_cases hid : userId = "ann"
      · subst hid
        obtain rfl := Option.some.inj huser
        rfl
      · have hnone : penUser.users.lookup userId = none := by
          rw [AList.lookup_eq_none]
          intro hmem
          have hmem : userId ∈ ["ann"] := hmem
          exact hid (List.mem_singleton.mp hmem)
        rw [hnone] at huser
        cases huser
    · cases hproduct
  have hids : ∀ turn ∈ avatarTurns, turn.call.Opaque := by
    intro turn hturn
    simp only [avatarTurns, List.mem_cons, List.not_mem_nil, or_false] at hturn
    rcases hturn with rfl | rfl
    · exact ⟨by decide, nofun⟩
    · exact ⟨by decide, nofun⟩
  exact ⟨s, hs, hlink, turns_fileBindings hnone hids (by decide) hs⟩

end Ecomm
