import Ecomm.FilesService

/-! What one `completeUpload` call does to the tables, call by call of the
database and the storage, and when it is atomic. -/

namespace Ecomm

open Concurrent FilesService

structure SameTables (s t : FilesState) : Prop where
  users : t.users = s.users
  products : t.products = s.products
  files : t.files = s.files

namespace SameTables

variable {s t u : FilesState}

theorem refl (s : FilesState) : SameTables s s := ⟨rfl, rfl, rfl⟩

theorem trans (h : SameTables s t) (h' : SameTables t u) : SameTables s u :=
  ⟨h'.users.trans h.users, h'.products.trans h.products, h'.files.trans h.files⟩

end SameTables

section Steps

variable {s t : FilesState} {i : Nat} {c : FilesChoice} {chs : List FilesChoice} {α : Type}

theorem exec_files_cases {o : FilesOp} {a : Except Thrown o.Ans}
    (h : fileStore.exec s i c o = some (a, t)) :
    (∃ e, c.failure o = some e ∧ a = .error e ∧ SameTables s t ∧
        t.objects = s.objects ++ c.appeared) ∨
      (c.failure o = none ∧
        FilesState.perform { s with objects := s.objects ++ c.appeared } c o = some (a, t)) := by
  have h : s.exec i c o = some (a, t) := h
  rw [FilesState.exec] at h
  cases hf : c.failure o with
  | some e =>
    rw [hf] at h
    obtain ⟨rfl, rfl⟩ := Prod.mk.inj (Option.some.inj h)
    exact .inl ⟨e, rfl, rfl, ⟨rfl, rfl, rfl⟩, rfl⟩
  | none =>
    rw [hf] at h
    exact .inr ⟨rfl, h⟩

theorem read_alone {o : FilesOp} {answer : FilesState → FilesChoice → o.Ans}
    (ho : ∀ u c, FilesState.perform u c o = some (.ok (answer u c), u)) {a : Except Thrown o.Ans}
    (h : (awaited o).eval fileStore i s chs = some (a, t)) :
    ∃ c, chs = [c] ∧ SameTables s t ∧ t.objects = s.objects ++ c.appeared ∧
      ∀ v, a = .ok v → v = answer t c := by
  obtain ⟨c, rfl, hexec⟩ := Prog.eval_await h
  rcases exec_files_cases hexec with ⟨e, _, rfl, hsame, hobjects⟩ | ⟨_, hperform⟩
  · exact ⟨c, rfl, hsame, hobjects, nofun⟩
  · rw [ho] at hperform
    obtain ⟨rfl, rfl⟩ := Prod.mk.inj (Option.some.inj hperform)
    exact ⟨c, rfl, ⟨rfl, rfl, rfl⟩, rfl, fun v hv => (Except.ok.inj hv).symm⟩

theorem findByIdOrThrow_cases {fileId : String} {r : Except Thrown FileRecord}
    (h : (findByIdOrThrow fileId).eval fileStore i s chs = some (r, t)) :
    SameTables s t ∧ ∃ c, chs = [c] ∧ t.objects = s.objects ++ c.appeared ∧
      ((∃ e, r = .error e) ∨ ∃ columns, s.files.lookup fileId = some columns ∧
        r = .ok ⟨columns, fileId⟩) := by
  obtain ⟨first, rest, a, u, rfl, hfirst, hrest⟩ := Prog.eval_bind h
  obtain ⟨c, rfl, hsame, hobjects, hvalue⟩ := read_alone (fun _ _ => rfl) hfirst
  rcases hrest with ⟨v, rfl, hrest⟩ | ⟨e, rfl, rfl, rfl, rfl⟩
  · have hv := hvalue v rfl
    rw [hsame.files] at hv
    subst hv
    cases hfile : s.files.lookup fileId with
    | none =>
      rw [hfile] at hrest
      obtain ⟨rfl, rfl, rfl⟩ := Prog.eval_raise hrest
      exact ⟨hsame, c, rfl, hobjects, .inl ⟨_, rfl⟩⟩
    | some columns =>
      rw [hfile] at hrest
      obtain ⟨rfl, rfl, rfl⟩ := Prog.eval_ret hrest
      exact ⟨hsame, c, rfl, hobjects, .inr ⟨columns, rfl, rfl⟩⟩
  · exact ⟨hsame, c, rfl, hobjects, .inl ⟨e, rfl⟩⟩

/-- How many calls it takes to find the object of a file. -/
def checks (status : FileStatus) : Nat := if status = .pending then 1 else 0

theorem checkObject_cases {file : FileRecord} {r : Except Thrown FileRecord}
    (h : (checkObject file).eval fileStore i s chs = some (r, t)) :
    SameTables s t ∧ chs.length = checks file.status ∧
      ((∃ e, r = .error e) ∨
        ((file.status = .ready ∨ file.key ∈ s.objects ++ chs.flatMap (·.appeared)) ∧
          r = .ok { file with status := .ready })) := by
  rw [checkObject] at h
  cases hstatus : file.status with
  | ready =>
    rw [hstatus] at h
    obtain ⟨rfl, rfl, rfl⟩ := Prog.eval_ret h
    refine ⟨.refl _, rfl, .inr ⟨.inl rfl, ?_⟩⟩
    rw [← hstatus]
  | pending =>
    rw [hstatus, if_pos rfl] at h
    obtain ⟨first, rest, a, u, rfl, hfirst, hrest⟩ := Prog.eval_bind h
    obtain ⟨c, rfl, hsame, hobjects, hvalue⟩ := read_alone (fun _ _ => rfl) hfirst
    rcases hrest with ⟨v, rfl, hrest⟩ | ⟨e, rfl, rfl, rfl, rfl⟩
    · have hv := hvalue v rfl
      rw [hobjects] at hv
      cases v with
      | false =>
        obtain ⟨rfl, rfl, rfl⟩ := Prog.eval_raise hrest
        exact ⟨hsame, rfl, .inl ⟨_, rfl⟩⟩
      | true =>
        obtain ⟨rfl, rfl, rfl⟩ := Prog.eval_ret hrest
        refine ⟨hsame, rfl, .inr ⟨.inr ?_, rfl⟩⟩
        simpa using of_decide_eq_true hv.symm
    · exact ⟨hsame, rfl, .inl ⟨e, rfl⟩⟩

/-- The file is bound to `entityId`, and the row of that user or product names it. -/
inductive Attached (dto : CompleteUploadDto) (user : AuthUser) (file : FileRecord) (now : Nat)
    (s t : FilesState) : String → Prop where
  | avatar (bindTo : dto.bindTo = "avatar")
      (key : startsWith file.key (avatarPrefix user.sub) = true)
      (found : (s.users.lookup user.sub).isSome)
      (users : t.users = s.users.insert user.sub ⟨some file.id, now⟩)
      (products : t.products = s.products) : Attached dto user file now s t user.sub
  | image (productId : String) (bindTo : dto.bindTo ≠ "avatar")
      (target : truthy dto.productId = some productId)
      (key : startsWith file.key (productPrefix productId) = true)
      (found : (s.products.lookup productId).isSome)
      (users : t.users = s.users)
      (products : t.products = s.products.insert productId ⟨some file.id, now⟩) :
      Attached dto user file now s t productId

theorem Attached.of_same {dto : CompleteUploadDto} {user : AuthUser} {file : FileRecord} {now : Nat}
    {u : FilesState} {entityId : String} (h : Attached dto user file now t u entityId)
    (hs : SameTables s t) : Attached dto user file now s u entityId := by
  cases h with
  | avatar bindTo key found users products =>
    rw [hs.users] at found users
    exact .avatar bindTo key found users (products.trans hs.products)
  | image _ bindTo target key found users products =>
    rw [hs.products] at found products
    exact .image entityId bindTo target key found (users.trans hs.users) products

theorem updated_cases {absent invalid : Bool} {u v : FilesState} {e : Thrown}
    {a : Except Thrown Nat}
    (h : (if absent then some (.ok 0, u) else if invalid then some (.error e, u)
      else some (.ok 1, v) : Option (Except Thrown Nat × FilesState)) = some (a, t)) :
    (t = u ∧ ∀ n, a = .ok n → n = 0) ∨ (absent = false ∧ a = .ok 1 ∧ t = v) := by
  cases absent with
  | true =>
    obtain ⟨rfl, rfl⟩ := Prod.mk.inj (Option.some.inj h)
    exact .inl ⟨rfl, fun n hn => (Except.ok.inj hn).symm⟩
  | false =>
    cases invalid with
    | true =>
      obtain ⟨rfl, rfl⟩ := Prod.mk.inj (Option.some.inj h)
      exact .inl ⟨rfl, nofun⟩
    | false =>
      obtain ⟨rfl, rfl⟩ := Prod.mk.inj (Option.some.inj h)
      exact .inr ⟨rfl, rfl, rfl⟩

theorem updateUser_alone {id fileId : String} (chs : List FilesChoice) (a : Except Thrown Nat)
    (t : FilesState)
    (h : (awaited (.updateUser id fileId)).eval fileStore i s chs = some (a, t)) :
    ∃ c, chs = [c] ∧ ((SameTables s t ∧ ∀ v, a = .ok v → v = 0) ∨
      (a = .ok 1 ∧ (s.users.lookup id).isSome ∧
        t.users = s.users.insert id ⟨some fileId, c.now⟩ ∧ t.products = s.products ∧
        t.files = s.files)) := by
  obtain ⟨c, rfl, hexec⟩ := Prog.eval_await h
  refine ⟨c, rfl, ?_⟩
  rcases exec_files_cases hexec with ⟨e, _, rfl, hsame, _⟩ | ⟨_, hperform⟩
  · exact .inl ⟨hsame, nofun⟩
  · rcases updated_cases hperform with ⟨rfl, hzero⟩ | ⟨hfound, rfl, rfl⟩
    · exact .inl ⟨⟨rfl, rfl, rfl⟩, hzero⟩
    · exact .inr ⟨rfl, Option.isNone_eq_false_iff.mp hfound, rfl, rfl, rfl⟩

theorem updateProduct_alone {id fileId : String} (chs : List FilesChoice) (a : Except Thrown Nat)
    (t : FilesState)
    (h : (awaited (.updateProduct id fileId)).eval fileStore i s chs = some (a, t)) :
    ∃ c, chs = [c] ∧ ((SameTables s t ∧ ∀ v, a = .ok v → v = 0) ∨
      (a = .ok 1 ∧ (s.products.lookup id).isSome ∧ t.users = s.users ∧
        t.products = s.products.insert id ⟨some fileId, c.now⟩ ∧ t.files = s.files)) := by
  obtain ⟨c, rfl, hexec⟩ := Prog.eval_await h
  refine ⟨c, rfl, ?_⟩
  rcases exec_files_cases hexec with ⟨e, _, rfl, hsame, _⟩ | ⟨_, hperform⟩
  · exact .inl ⟨hsame, nofun⟩
  · rcases updated_cases hperform with ⟨rfl, hzero⟩ | ⟨hfound, rfl, rfl⟩
    · exact .inl ⟨⟨rfl, rfl, rfl⟩, hzero⟩
    · exact .inr ⟨rfl, Option.isNone_eq_false_iff.mp hfound, rfl, rfl, rfl⟩

theorem affected_cases {p : Files Nat} {effect : FilesChoice → FilesState → Prop}
    (hp : ∀ chs a t, p.eval fileStore i s chs = some (a, t) → ∃ c, chs = [c] ∧
      ((SameTables s t ∧ ∀ v, a = .ok v → v = 0) ∨ (a = .ok 1 ∧ effect c t)))
    {message : String} {file : FileRecord} {r : Except Thrown FileRecord}
    (h : (do
      let affected ← p
      if affected = 0 then throw (.notFound message) else pure file : Files FileRecord).eval
        fileStore i s chs = some (r, t)) :
    (SameTables s t ∧ chs.length ≤ 1 ∧ ∃ e, r = .error e) ∨
      ∃ c, chs = [c] ∧ effect c t ∧ r = .ok file := by
  obtain ⟨first, rest, a, u, rfl, hfirst, hrest⟩ := Prog.eval_bind h
  obtain ⟨c, rfl, heffect⟩ := hp first a u hfirst
  rcases hrest with ⟨v, rfl, hrest⟩ | ⟨e, rfl, rfl, rfl, rfl⟩
  · rcases heffect with ⟨hsame, hzero⟩ | ⟨hone, heffect⟩
    · rw [hzero v rfl] at hrest
      obtain ⟨rfl, rfl, rfl⟩ := Prog.eval_raise hrest
      exact .inl ⟨hsame, Nat.le_refl 1, _, rfl⟩
    · obtain rfl := Except.ok.inj hone
      obtain ⟨rfl, rfl, rfl⟩ := Prog.eval_ret hrest
      exact .inr ⟨c, rfl, heffect, rfl⟩
  · rcases heffect with ⟨hsame, _⟩ | ⟨hone, _⟩
    · exact .inl ⟨hsame, Nat.le_refl 1, e, rfl⟩
    · cases hone

theorem attachFileToDomain_cases {dto : CompleteUploadDto} {file : FileRecord} {user : AuthUser}
    {r : Except Thrown FileRecord}
    (h : (attachFileToDomain dto file user).eval fileStore i s chs = some (r, t)) :
    (SameTables s t ∧ chs.length ≤ 1 ∧ ∃ e, r = .error e) ∨
      ∃ c entityId, chs = [c] ∧ Attached dto user file c.now s t entityId ∧ t.files = s.files ∧
        r = .ok { file with entityId := some entityId } := by
  rw [attachFileToDomain] at h
  by_cases hbind : dto.bindTo = "avatar"
  · rw [if_pos hbind, assertAvatarKeyBelongsToOwner] at h
    by_cases hkey : startsWith file.key (avatarPrefix user.sub) = true
    · rw [if_neg (by simpa using hkey)] at h
      rcases affected_cases updateUser_alone h with
        hfailed | ⟨c, rfl, ⟨hfound, husers, hproducts, hfiles⟩, rfl⟩
      · exact .inl hfailed
      · exact .inr ⟨c, user.sub, rfl, .avatar hbind hkey hfound husers hproducts, hfiles, rfl⟩
    · rw [if_pos (by simpa using hkey)] at h
      obtain ⟨rfl, rfl, rfl⟩ := Prog.eval_raise h
      exact .inl ⟨.refl _, Nat.zero_le 1, _, rfl⟩
  · rw [if_neg hbind] at h
    cases htarget : truthy dto.productId with
    | none =>
      rw [htarget] at h
      obtain ⟨rfl, rfl, rfl⟩ := Prog.eval_raise h
      exact .inl ⟨.refl _, Nat.zero_le 1, _, rfl⟩
    | some productId =>
      simp only [htarget, assertProductKeyMatchesTarget] at h
      by_cases hkey : startsWith file.key (productPrefix productId) = true
      · rw [if_neg (by simpa using hkey)] at h
        rcases affected_cases updateProduct_alone h with
          hfailed | ⟨c, rfl, ⟨hfound, husers, hproducts, hfiles⟩, rfl⟩
        · exact .inl hfailed
        · exact .inr ⟨c, productId, rfl, .image productId hbind htarget hkey hfound husers hproducts,
            hfiles, rfl⟩
      · rw [if_pos (by simpa using hkey)] at h
        obtain ⟨rfl, rfl, rfl⟩ := Prog.eval_raise h
        exact .inl ⟨.refl _, Nat.zero_le 1, _, rfl⟩

/-- How many calls `completeUpload` makes before it saves the file. -/
def saveAt (s : FilesState) (dto : CompleteUploadDto) : Nat :=
  2 + checks ((s.files.lookup dto.fileId).elim .ready (·.status))

def FileColumns.bound (columns : FileColumns) (entityId : String) : FileColumns :=
  { columns with status := .ready, entityId := some entityId }

/-- The file is bound, and then it is saved unless that call fails. -/
structure Completed (dto : CompleteUploadDto) (user : AuthUser) (s t : FilesState)
    (chs : List FilesChoice) (r : Except Thrown FileView) (columns : FileColumns)
    (entityId : String) (before : List FilesChoice) (update save : FilesChoice)
    (middle : FilesState) : Prop where
  found : s.files.lookup dto.fileId = some columns
  owner : columns.ownerId = user.sub
  choices : chs = before ++ [update, save]
  length : before.length + 1 = saveAt s dto
  object : columns.status = .ready ∨ columns.key ∈ s.objects ++ before.flatMap (·.appeared)
  attached : Attached dto user ⟨{ columns with status := .ready }, dto.fileId⟩ update.now s middle
    entityId
  files : middle.files = s.files
  saved : (save.fault.isSome ∧ (∃ e, r = .error e) ∧ SameTables middle t) ∨
    (save.fault = none ∧ (∃ view, r = .ok view) ∧ t.users = middle.users ∧
      t.products = middle.products ∧ t.files = s.files.insert dto.fileId
        ((columns.bound entityId).saved (some columns) save.now))

/-- A call that throws before it has bound the file leaves the tables alone. -/
theorem completeUpload_cases {s3 : S3Service} {dto : CompleteUploadDto} {user : AuthUser}
    {r : Except Thrown FileView}
    (h : (completeUpload s3 dto user).eval fileStore i s chs = some (r, t)) :
    (SameTables s t ∧ chs.length ≤ saveAt s dto ∧ ∃ e, r = .error e) ∨
      ∃ columns entityId before update save middle,
        Completed dto user s t chs r columns entityId before update save middle := by
  obtain ⟨first, rest, a, s₁, rfl, hfind, h₁⟩ := Prog.eval_bind h
  obtain ⟨hsame₁, c, rfl, hobjects, hfile₁⟩ := findByIdOrThrow_cases hfind
  have hone : ([c] ++ [] : List FilesChoice).length ≤ saveAt s dto :=
    (by decide : 1 ≤ 2).trans (Nat.le_add_right 2 _)
  rcases h₁ with ⟨file, rfl, h₁⟩ | ⟨e, rfl, rfl, rfl, rfl⟩
  case inr => exact .inl ⟨hsame₁, hone, e, rfl⟩
  rcases hfile₁ with ⟨e, he⟩ | ⟨columns, hcolumns, hfile⟩
  case inl => cases he
  obtain rfl := Except.ok.inj hfile
  rw [assertOwner] at h₁
  by_cases howner : columns.ownerId ≠ user.sub
  · rw [if_pos howner] at h₁
    obtain ⟨rfl, rfl, rfl⟩ := Prog.eval_raise h₁
    exact .inl ⟨hsame₁, hone, _, rfl⟩
  simp only [if_neg howner, Prog.pure_eq, Prog.ret_bind] at h₁
  have hsave : saveAt s dto = 2 + checks columns.status := by rw [saveAt, hcolumns]; rfl
  obtain ⟨second, rest, a, s₂, rfl, hcheck, h₂⟩ := Prog.eval_bind h₁
  obtain ⟨hsame₂, hlength, hfile₂⟩ := checkObject_cases hcheck
  have hsame₂ := hsame₁.trans hsame₂
  rcases h₂ with ⟨file, rfl, h₂⟩ | ⟨e, rfl, rfl, rfl, rfl⟩
  case inr =>
    refine .inl ⟨hsame₂, ?_, e, rfl⟩
    rw [hsave]
    simp only [List.append_nil, List.length_append, List.length_singleton, hlength]
    omega
  rcases hfile₂ with ⟨e, he⟩ | ⟨hobject, hfile⟩
  case inl => cases he
  obtain rfl := Except.ok.inj hfile
  obtain ⟨third, rest, a, s₃, rfl, hattach, h₃⟩ := Prog.eval_bind h₂
  rcases attachFileToDomain_cases hattach with
    ⟨hsame₃, hthird, e, rfl⟩ | ⟨update, entityId, rfl, hattached, hfiles, rfl⟩
  · rcases h₃ with ⟨file, hfile, _⟩ | ⟨e', he, rfl, rfl, rfl⟩
    · cases hfile
    · refine .inl ⟨hsame₂.trans hsame₃, ?_, e', rfl⟩
      rw [hsave]
      simp only [List.append_nil, List.length_append, List.length_singleton, hlength]
      omega
  right
  rcases h₃ with ⟨file, hfile, h₃⟩ | ⟨e, he, _⟩
  case inr => cases he
  obtain rfl := Except.ok.inj hfile
  obtain ⟨fourth, rest, a, s₄, rfl, hlast, h₄⟩ := Prog.eval_bind h₃
  obtain ⟨save, rfl, hexec⟩ := Prog.eval_await hlast
  have hfiles : s₃.files = s.files := hfiles.trans hsame₂.files
  have hlength : second.length = checks columns.status := hlength
  obtain rfl : rest = [] := by
    rcases h₄ with ⟨v, _, h₄⟩ | ⟨_, _, hrest, _⟩
    · exact (Prog.eval_ret h₄).1
    · exact hrest
  refine ⟨columns, entityId, [c] ++ second, update, save, s₃, hcolumns, by simpa using howner, ?_, ?_,
    ?_, hattached.of_same hsame₂, hfiles, ?_⟩
  · simp only [List.append_nil, List.cons_append, List.nil_append]
  · rw [hsave, List.length_append, List.length_singleton, hlength]
    omega
  · rcases hobject with hready | hobject
    · exact .inl hready
    · right
      rw [hobjects] at hobject
      simpa [List.append_assoc] using hobject
  · rcases exec_files_cases hexec with ⟨e, hfault, rfl, hsame, _⟩ | ⟨hfault, hperform⟩
    · have hfault : save.fault = some e := hfault
      rcases h₄ with ⟨v, hv, _⟩ | ⟨e', _, _, rfl, rfl⟩
      · cases hv
      · exact .inl ⟨by rw [hfault]; rfl, ⟨e', rfl⟩, hsame⟩
    · obtain ⟨rfl, rfl⟩ := Prod.mk.inj (Option.some.inj hperform)
      rcases h₄ with ⟨v, hv, h₄⟩ | ⟨e', he, _⟩
      · obtain ⟨-, rfl, rfl⟩ := Prog.eval_ret h₄
        refine .inr ⟨hfault, ⟨_, rfl⟩, rfl, rfl, ?_⟩
        simp only [hfiles, hcolumns]
        rfl
      · cases he

end Steps

/-- Users, products and files have the content they had before. -/
structure SameContent (s t : FilesState) : Prop where
  users : ∀ id, t.users.lookup id = s.users.lookup id
  products : ∀ id, t.products.lookup id = s.products.lookup id
  files : ∀ id, t.files.lookup id = s.files.lookup id

/-- What the user or the product that the file is bound to refers to, and when
its row was updated. -/
def FilesState.link (s : FilesState) (dto : CompleteUploadDto) (user : AuthUser) :
    Option (Option String × Nat) :=
  if dto.bindTo = "avatar" then
    (s.users.lookup user.sub).map (fun row => (row.avatarFileId, row.updatedAt))
  else (truthy dto.productId).bind (fun productId =>
    (s.products.lookup productId).map (fun row => (row.imageFileId, row.updatedAt)))

/-- The save of the file fails, and the update before it was not idle. -/
def Torn (s : FilesState) (dto : CompleteUploadDto) (user : AuthUser)
    (chs : List FilesChoice) : Prop :=
  ∃ update save, chs[saveAt s dto - 1]? = some update ∧ chs[saveAt s dto]? = some save ∧
    save.fault.isSome ∧ s.link dto user ≠ some (some dto.fileId, update.now)

theorem SameTables.content {s t : FilesState} (h : SameTables s t) : SameContent s t :=
  ⟨fun _ => by rw [h.users], fun _ => by rw [h.products], fun _ => by rw [h.files]⟩

theorem lookup_insert_same {β : Type} {m : AList (fun _ : String => β)} {key : String} {v : β} :
    (∀ id, (m.insert key v).lookup id = m.lookup id) ↔ m.lookup key = some v := by
  constructor
  · intro h
    rw [← h key, AList.lookup_insert]
  · intro h id
    by_cases hid : id = key
    · subst hid
      rw [AList.lookup_insert, h]
    · rw [AList.lookup_insert_ne hid]

theorem Attached.content_iff {dto : CompleteUploadDto} {user : AuthUser} {columns : FileColumns}
    {now : Nat} {s t : FilesState} {entityId : String}
    (h : Attached dto user ⟨columns, dto.fileId⟩ now s t entityId) (hfiles : t.files = s.files) :
    SameContent s t ↔ s.link dto user = some (some dto.fileId, now) := by
  have hfiles' : ∀ id, t.files.lookup id = s.files.lookup id := fun id => by rw [hfiles]
  cases h with
  | avatar bindTo key found users products =>
    have hproducts : ∀ id, t.products.lookup id = s.products.lookup id := fun id => by rw [products]
    have hlink : s.link dto user = some (some dto.fileId, now) ↔
        s.users.lookup user.sub = some ⟨some dto.fileId, now⟩ := by
      obtain ⟨row, hrow⟩ := Option.isSome_iff_exists.mp found
      rw [FilesState.link, if_pos bindTo, hrow]
      obtain ⟨avatarFileId, updatedAt⟩ := row
      simp
    rw [hlink, ← lookup_insert_same, ← users]
    exact ⟨fun h => h.users, fun h => ⟨h, hproducts, hfiles'⟩⟩
  | image _ bindTo target key found users products =>
    have husers : ∀ id, t.users.lookup id = s.users.lookup id := fun id => by rw [users]
    have hlink : s.link dto user = some (some dto.fileId, now) ↔
        s.products.lookup entityId = some ⟨some dto.fileId, now⟩ := by
      obtain ⟨row, hrow⟩ := Option.isSome_iff_exists.mp found
      rw [FilesState.link, if_neg bindTo, target, Option.bind_some, hrow]
      obtain ⟨imageFileId, updatedAt⟩ := row
      simp
    rw [hlink, ← lookup_insert_same, ← products]
    exact ⟨fun h => h.products, fun h => ⟨husers, h, hfiles'⟩⟩

/-- A `completeUpload` that throws has left every row as it was exactly if it
was not the save of the file that failed, after an update that changed a row. -/
theorem completeUpload_atomic_iff (s3 : S3Service) (dto : CompleteUploadDto) (user : AuthUser)
    {s t : FilesState} {chs : List FilesChoice} {e : Thrown}
    (h : (completeUpload s3 dto user).eval fileStore 0 s chs = some (.error e, t)) :
    SameContent s t ↔ ¬ Torn s dto user chs := by
  rcases completeUpload_cases h with ⟨hsame, hlength, _⟩ | ⟨columns, entityId, before, update, save,
    middle, hdone⟩
  · refine iff_of_true hsame.content ?_
    rintro ⟨_, c, _, hsave, _⟩
    rw [List.getElem?_eq_none hlength] at hsave
    cases hsave
  · obtain ⟨hfault, _, hsame⟩ : save.fault.isSome ∧ (∃ e', Except.error e = .error e') ∧
        SameTables middle t := by
      rcases hdone.saved with hfailed | ⟨_, ⟨view, hview⟩, _⟩
      · exact hfailed
      · cases hview
    have hupdate : chs[saveAt s dto - 1]? = some update := by
      rw [← hdone.length, hdone.choices, Nat.add_sub_cancel,
        List.getElem?_append_right (Nat.le_refl _), Nat.sub_self]
      rfl
    have hsave : chs[saveAt s dto]? = some save := by
      rw [← hdone.length, hdone.choices, List.getElem?_append_right (Nat.le_add_right _ 1),
        Nat.add_sub_cancel_left]
      rfl
    have htorn : Torn s dto user chs ↔ s.link dto user ≠ some (some dto.fileId, update.now) := by
      constructor
      · rintro ⟨update', _, hupdate', _, _, hlink⟩
        obtain rfl := Option.some.inj (hupdate.symm.trans hupdate')
        exact hlink
      · exact fun hlink => ⟨update, save, hupdate, hsave, hfault, hlink⟩
    have hcontent := hdone.attached.content_iff hdone.files
    rw [htorn, not_not, ← hcontent]
    constructor
    · intro hst
      exact ⟨fun id => by rw [← hst.users id, hsame.users], fun id => by
        rw [← hst.products id, hsame.products], fun id => by rw [← hst.files id, hsame.files]⟩
    · intro hst
      exact ⟨fun id => by rw [← hst.users id, hsame.users], fun id => by
        rw [← hst.products id, hsame.products], fun id => by rw [← hst.files id, hsame.files]⟩

def penUpload : FilesState where
  users := AList.singleton "ann" ⟨none, 0⟩
  products := ∅
  files := AList.singleton "file-1"
    { ownerId := "ann", entityId := none, key := "users/ann/avatars/1.png"
      contentType := "image/png", size := .finite 5, status := .pending, visibility := .privateFile
      createdAt := 0, updatedAt := 0 }
  objects := ["users/ann/avatars/1.png"]

def penS3 : S3Service := ⟨"bucket", "eu-central-1", none, .finite 900⟩

def annUser : AuthUser := ⟨"ann", "", ["user"], ["files:write"]⟩

def annAvatar : CompleteUploadDto := ⟨"file-1", "avatar", none⟩

def served (fault outage : Option Thrown) : FilesChoice := ⟨[], fault, outage, "", "", 5, ""⟩

def isError {α : Type} : Except Thrown α → Bool
  | .error _ => true
  | .ok _ => false

theorem exists_error {α : Type} {r : Except Thrown α} (h : isError r = true) :
    ∃ e, r = .error e := by
  cases r with
  | error e => exact ⟨e, rfl⟩
  | ok a => cases h

theorem completeUpload_atomic_check :
    ∃ e t, (completeUpload penS3 annAvatar annUser).eval fileStore 0 penUpload
        [served none none, served none (some (.error "S3 is down"))] = some (.error e, t) ∧
      (SameContent penUpload t ↔ ¬ Torn penUpload annAvatar annUser
        [served none none, served none (some (.error "S3 is down"))]) := by
  have hrun : ((completeUpload penS3 annAvatar annUser).eval fileStore 0 penUpload
      [served none none, served none (some (.error "S3 is down"))]).map (fun r => isError r.1) =
        some true := by decide +kernel
  obtain ⟨⟨r, t⟩, hr, herror⟩ := Option.map_eq_some_iff.mp hrun
  obtain ⟨e, rfl⟩ := exists_error herror
  exact ⟨e, t, hr, completeUpload_atomic_iff penS3 annAvatar annUser hr⟩

/-- The save of the file fails: the user refers to a file that is still pending. -/
theorem completeUpload_tears :
    ¬ ∀ (s t : FilesState) dto user chs e,
      (chs.filter (fun c => c.fault.isSome || c.outage.isSome)).length ≤ 1 →
      (completeUpload penS3 dto user).eval fileStore 0 s chs = some (.error e, t) →
      SameContent s t := by
  intro h
  have hrun : ((completeUpload penS3 annAvatar annUser).eval fileStore 0 penUpload
      [served none none, served none none, served none none, served (some (.sql .failed)) none]).map
        (fun r => (isError r.1, (r.2.users.lookup "ann").map UserLink.avatarFileId,
          (r.2.files.lookup "file-1").map FileColumns.status)) =
      some (true, some (some "file-1"), some .pending) := by decide +kernel
  obtain ⟨⟨r, t⟩, hr, hafter⟩ := Option.map_eq_some_iff.mp hrun
  obtain ⟨herror, hafter⟩ := Prod.mk.inj hafter
  obtain ⟨e, rfl⟩ := exists_error herror
  have hsame := h penUpload t annAvatar annUser _ e (by decide) hr
  have huser := (Prod.mk.inj hafter).1
  rw [hsame.users] at huser
  revert huser
  decide

end Ecomm
