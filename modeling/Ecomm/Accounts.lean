import Ecomm.AuthService
import Ecomm.Lib.Traced
import Ecomm.Lib.Constant
import Ecomm.Sequential
import Ecomm.UserEmails

/-! Sign-ups, edits of users and logins in any order of their steps: where the
columns of the users come from, and what a call learns about them when it reads. -/

namespace Ecomm

open Concurrent Sql UsersService AuthService

/-- The packages: every sign-up has its own salt, and every token its own time. -/
structure Kit where
  hash : Nat → String → String
  compare : String → String → Bool
  sign : Nat → AuthUser → Except String String
  arraysByValue : Bool

inductive ApiCall where
  | signUp (call : CreateUser)
  | updateUser (id : String) (updates : UpdateUser)
  | login (email password : String)
  | serve (operation : Operation)

def ApiCall.program (kit : Kit) (i : Nat) : ApiCall → App (Option String)
  | signUp call => do
    let _ ← call.program (kit.hash i)
    pure none
  | updateUser id updates => do
    let _ ← UsersService.updateUser kit.arraysByValue id updates
    pure none
  | login email password => do
    let accessToken ← AuthService.login kit.compare (kit.sign i) email password
    pure (some accessToken)
  | serve operation => do
    let _ ← operation.program
    pure none

abbrev answering (kit : Kit) (s : AppState) (calls : List ApiCall) : Config app (Option String) :=
  ⟨s, fun i => calls[i]?.map (ApiCall.program kit i)⟩

/-- The password opens the account. -/
def Unlocks (kit : Kit) (password : String) (user : User) : Prop :=
  ∃ passwordHash, truthy user.passwordHash = some passwordHash ∧
    kit.compare password passwordHash = true

namespace UsersService

def CreateUser.row (hash : String → String) (call : CreateUser) (now : Nat) : User where
  email := call.email
  passwordHash := (truthy call.password).map hash
  roles := call.roles.getD []
  scopes := call.scopes.getD []
  createdAt := now
  updatedAt := now

/-- The user that an edit is aimed at. -/
def UpdateUser.target (updates : UpdateUser) (path : String) : Option Uuid :=
  uuidIn (updates.id.getD path)

end UsersService

section Sources

variable (T : Database) (kit : Kit) (calls : List ApiCall)

/-- Sign-up `i` makes the row. -/
def Made (i : Nat) (r : User) : Prop :=
  ∃ call now, calls[i]? = some (.signUp call) ∧ r = call.row (kit.hash i) now

def Aimed (j : Nat) (updates : UpdateUser) (id : Uuid) : Prop :=
  ∃ path, calls[j]? = some (.updateUser path updates) ∧ updates.target path = some id

/-- Where a column of user `id` has its value from. -/
def Source {α : Type} (column : User → α) (given : UpdateUser → Option α)
    (L : List (Commit schema)) (id : Uuid) (v : α) : Prop :=
  (∃ r, (T .users).lookup id = some r ∧ column r = v) ∨
    (∃ e ∈ L, ∃ r, (⟨.users, id, some r⟩ : Write schema) ∈ e.writes ∧ Made kit calls e.thread r ∧
      column r = v) ∨
    ∃ j updates, Aimed calls j updates id ∧ given updates = some v

structure Sourced (L : List (Commit schema)) (id : Uuid) (r : User) : Prop where
  email : Source T kit calls User.email UpdateUser.email L id r.email
  passwordHash : Source T kit calls User.passwordHash UpdateUser.passwordHash L id r.passwordHash
  roles : Source T kit calls User.roles UpdateUser.roles L id r.roles
  scopes : Source T kit calls User.scopes UpdateUser.scopes L id r.scopes

variable {T kit calls} {L L' : List (Commit schema)} {id : Uuid} {r : User}

theorem Source.mono {α : Type} {column : User → α} {given : UpdateUser → Option α} {v : α}
    (hL : ∀ e ∈ L, e ∈ L') (h : Source T kit calls column given L id v) :
    Source T kit calls column given L' id v := by
  refine h.imp_right (Or.imp_left ?_)
  rintro ⟨e, he, hrow⟩
  exact ⟨e, hL e he, hrow⟩

theorem Sourced.mono (hL : ∀ e ∈ L, e ∈ L') (h : Sourced T kit calls L id r) :
    Sourced T kit calls L' id r :=
  ⟨h.email.mono hL, h.passwordHash.mono hL, h.roles.mono hL, h.scopes.mono hL⟩

theorem Sourced.initial (h : (T .users).lookup id = some r) : Sourced T kit calls L id r :=
  ⟨.inl ⟨r, h, rfl⟩, .inl ⟨r, h, rfl⟩, .inl ⟨r, h, rfl⟩, .inl ⟨r, h, rfl⟩⟩

theorem Sourced.made {e : Commit schema} (he : e ∈ L)
    (hw : (⟨.users, id, some r⟩ : Write schema) ∈ e.writes) (hmade : Made kit calls e.thread r) :
    Sourced T kit calls L id r :=
  ⟨.inr (.inl ⟨e, he, r, hw, hmade, rfl⟩), .inr (.inl ⟨e, he, r, hw, hmade, rfl⟩),
    .inr (.inl ⟨e, he, r, hw, hmade, rfl⟩), .inr (.inl ⟨e, he, r, hw, hmade, rfl⟩)⟩

variable (T kit calls)

abbrev userOrigins : Origins schema .users where
  new i _ r := Made kit calls i r
  good := Sourced T kit calls
  mono hL h := h.mono hL
  added he hw hmade := .made he hw hmade

end Sources

/-- Thread `index`, with the users that it has read outside of a transaction. -/
structure Desk where
  index : Nat
  isOpen : Bool
  known : List (Uuid × User)

/-- What a select of the users has found: among others the users of `T` and
those that were read before, an email once. -/
structure Listed (T : Database) (calls : List ApiCall) (cond : Uuid → User → Bool)
    (known rows : List (Uuid × User)) : Prop where
  meets : ∀ e ∈ rows, cond e.1 e.2 = true
  apart : ∀ e ∈ rows, ∀ e' ∈ rows, e.2.email = e'.2.email → e = e'
  stays : ∀ e ∈ known, ∃ r, cond e.1 r = true → (e.1, r) ∈ rows
  initial : ∀ id r₀, (T .users).lookup id = some r₀ → (∀ j updates, ¬ Aimed calls j updates id) →
    ∃ r, r.email = r₀.email ∧ r.passwordHash = r₀.passwordHash ∧
      (cond id r = true → (id, r) ∈ rows)

namespace Desk

section

variable (T : Database) (kit : Kit) (calls : List ApiCall)

def Allowed (g : Desk) : AppOp → Prop
  | .sql (.stmt (.insert .users none row)) => ∀ now, Made kit calls g.index (row now)
  | .sql (.stmt (.insert .users (some _) _)) => False
  | .sql (.stmt (.update .users id set)) => (∃ e ∈ g.known, e.1 = id) ∧
    (∀ r, ¬ Made kit calls g.index r) ∧
    ∀ L, (∀ e ∈ g.known, Sourced T kit calls L e.1 e.2) → ∀ now r, Sourced T kit calls L id r →
      Sourced T kit calls L id (set now r)
  | .sql (.stmt (.delete _ _)) => False
  | _ => True

def Learns (g : Desk) : (o : AppOp) → Except Thrown o.Ans → Desk → Prop
  | .sql .startTransaction, _, g' => g' = { g with isOpen := true }
  | .sql (.stmt (.select .users cond)), .ok rows, g' =>
    let users : List (Uuid × User) := rows
    if g.isOpen then g' = g
    else g' = { g with known := g.known ++ users } ∧ Listed T calls cond g.known users
  | .sql (.stmt (.select .users _)), .error e, g' => g' = g ∧ ∃ error, e = .sql error
  | _, _, g' => g' = g

end

end Desk

def desks (T : Database) (kit : Kit) (calls : List ApiCall) :
    Protocol AppOp AppOp.Ans Thrown Desk where
  allowed g := g.Allowed T kit calls
  next g := g.Learns T calls

/-- Nothing deletes a row, and what the threads have read was committed. -/
structure Desks (T : Database) (kit : Kit) (calls : List ApiCall) (s : AppState)
    (γ : Nat → Desk) : Prop where
  coherent : s.store.Coherent
  growing : s.store.Growing
  recorded : s.store.Recorded T
  traced : s.store.Traced (userOrigins T kit calls) T
  index : ∀ i, (γ i).index = i
  plain : ∀ i, (γ i).isOpen = false → s.store.tx i = none
  known : ∀ i, ∀ e ∈ (γ i).known, s.store.Ever T (Table.users : schema.Table) e.1 e.2 ∧
    ((s.store.tables .users).lookup e.1).isSome = true ∧ Sourced T kit calls s.store.log e.1 e.2

namespace Desks

variable {T : Database} {kit : Kit} {calls : List ApiCall} {s : AppState} {γ : Nat → Desk}
  {i : Nat} {c : Choice schema} {store : Store schema} {g : Desk}

theorem traces (h : Desks T kit calls s γ) {q : Sql.Op schema}
    (ha : (γ i).Allowed T kit calls (.sql q)) :
    q.Traces (userOrigins T kit calls) s.store.log s.store.tables i := by
  cases q with
  | startTransaction | commitTransaction | rollbackTransaction => trivial
  | stmt q =>
    cases q with
    | select | selectForUpdate | malformed => trivial
    | delete => exact ha.elim
    | insert t id row =>
      rintro rfl c
      cases id with
      | none => exact h.index i ▸ ha c.now
      | some id => exact ha.elim
    | update t id set =>
      rintro rfl
      obtain ⟨⟨e, he, rfl⟩, hnot, hset⟩ := ha
      refine ⟨(h.known i e he).2.1, ?_⟩
      intro now r hr
      refine ⟨hset _ (fun e he => (h.known i e he).2.2) now r hr, ?_⟩
      exact h.index i ▸ hnot _

/-- Thread `i` has done an operation, and `g` is what it knows now. -/
theorem exec (h : Desks T kit calls s γ) {q : Sql.Op schema} {r : Except SqlError q.Ans}
    (he : s.store.exec i c q = some (r, store)) (ha : (γ i).Allowed T kit calls (.sql q))
    (hindex : g.index = i) (hplain : g.isOpen = false → store.tx i = none)
    (hknown : ∀ e ∈ g.known, e ∈ (γ i).known ∨
      (s.store.tables .users).lookup e.1 = some e.2) :
    Desks T kit calls { s with store } (Function.update γ i g) := by
  have hdelete : ∀ t id, q ≠ .stmt (.delete t id) := by
    rintro t id rfl
    exact ha.elim
  have hlog := Store.exec_log_subset he
  obtain ⟨hgrowing, hwithin⟩ := h.growing.exec he hdelete
  have hkept : ∀ e : Uuid × User, s.store.Ever T (Table.users : schema.Table) e.1 e.2 ∧
        ((s.store.tables .users).lookup e.1).isSome = true ∧
        Sourced T kit calls s.store.log e.1 e.2 →
      store.Ever T (Table.users : schema.Table) e.1 e.2 ∧
        ((store.tables .users).lookup e.1).isSome = true ∧
        Sourced T kit calls store.log e.1 e.2 := by
    rintro e ⟨hever, hrow, hsourced⟩
    exact ⟨hever.mono hlog, hwithin _ _ hrow, hsourced.mono hlog⟩
  refine ⟨h.coherent.exec he, hgrowing, h.recorded.exec he,
    h.traced.exec h.coherent he (h.traces ha), ?_, ?_, ?_⟩
  · intro j
    by_cases hj : j = i
    · subst hj
      rwa [Function.update_self]
    · rw [Function.update_of_ne hj]
      exact h.index j
  · intro j hp
    by_cases hj : j = i
    · subst hj
      rw [Function.update_self] at hp
      exact hplain hp
    · rw [Function.update_of_ne hj] at hp
      exact (Store.exec_tx_other he hj).trans (h.plain j hp)
  · intro j e hmem
    apply hkept
    by_cases hj : j = i
    · subst hj
      rw [Function.update_self] at hmem
      rcases hknown e hmem with hold | hrow
      · exact h.known j e hold
      · exact ⟨h.recorded _ _ _ hrow, Option.isSome_iff_exists.mpr ⟨_, hrow⟩, h.traced.row _ _ hrow⟩
    · rw [Function.update_of_ne hj] at hmem
      exact h.known j e hmem

/-- What a user of `T` keeps as long as no edit is aimed at it. -/
theorem initial (h : Desks T kit calls s γ) {α : Type} {column : User → α}
    {given : UpdateUser → Option α} {id : Uuid} {r₀ : User} {v : α}
    (hr₀ : (T .users).lookup id = some r₀) (hnone : ∀ j updates, ¬ Aimed calls j updates id)
    (hv : Source T kit calls column given s.store.log id v) : v = column r₀ := by
  rcases hv with ⟨r, hr, rfl⟩ | ⟨e, he, r, hw, hmade, _⟩ | ⟨j, updates, haimed, _⟩
  · rw [Option.some.inj (hr₀.symm.trans hr)]
  · have hadded := (h.traced.added e.thread id ⟨e, he, rfl, r, hw, hmade⟩).2
    cases hr₀.symm.trans hadded
  · exact absurd haimed (hnone j updates)

theorem listed (h : Desks T kit calls s γ) (hp : (γ i).isOpen = false)
    {cond : Uuid → User → Bool} {rows : List (Uuid × User)}
    (he : s.store.exec i c (.stmt (.select .users cond)) = some (.ok rows, store)) :
    Listed T calls cond (γ i).known rows ∧
      ∀ e ∈ rows, (s.store.tables .users).lookup e.1 = some e.2 := by
  have hview : ∀ e : Uuid × User, e ∈ rows ↔
      (s.store.tables .users).lookup e.1 = some e.2 ∧ cond e.1 e.2 = true := by
    intro e
    rw [← Store.view_none (h.plain i hp)]
    exact Store.exec_select (e := e) he
  refine ⟨⟨fun e hmem => ((hview e).mp hmem).2, ?_, ?_, ?_⟩, fun e hmem => ((hview e).mp hmem).1⟩
  · intro e hmem e' hmem' hemail
    have hrow := ((hview e).mp hmem).1
    have hrow' := ((hview e').mp hmem').1
    have hid : e.1 = e'.1 := h.coherent.distinct .users e.1 e'.1 e.2 e'.2 (.email e.2.email) hrow
      hrow' (List.mem_singleton_self _) (hemail ▸ List.mem_singleton_self _)
    rw [← hid] at hrow'
    exact Prod.ext hid (Option.some.inj (hrow.symm.trans hrow'))
  · intro e hmem
    obtain ⟨r, hr⟩ := Option.isSome_iff_exists.mp (h.known i e hmem).2.1
    exact ⟨r, fun hcond => (hview (e.1, r)).mpr ⟨hr, hcond⟩⟩
  · intro id r₀ hr₀ hnone
    obtain ⟨r, hr⟩ := Option.isSome_iff_exists.mp
      (h.traced.initial id (Option.isSome_iff_exists.mpr ⟨r₀, hr₀⟩))
    have hsourced := h.traced.row id r hr
    exact ⟨r, h.initial hr₀ hnone hsourced.email, h.initial hr₀ hnone hsourced.passwordHash,
      fun hcond => (hview (id, r)).mpr ⟨hr, hcond⟩⟩

end Desks

theorem desks_sound (T : Database) (kit : Kit) (calls : List ApiCall) :
    (desks T kit calls).Sound app Always (Desks T kit calls) where
  exec {s γ i ch o r s'} h _ ha he := by
    have ha : (γ i).Allowed T kit calls o := ha
    have he : AppState.exec s i ch o = some (r, s') := he
    cases o with
    | channelReady | randomUUID | dateNow | settle _ | publishStatusChanged _ | sendToQueue _ =>
      have hstore := AppState.exec_store he (by simp)
      refine ⟨γ i, rfl, ?_⟩
      rw [Function.update_eq_self]
      exact ⟨hstore ▸ h.coherent, hstore ▸ h.growing, hstore ▸ h.recorded, hstore ▸ h.traced,
        h.index, hstore ▸ h.plain, hstore ▸ h.known⟩
    | sql q =>
      obtain ⟨a, store, hexec, rfl, rfl⟩ := AppState.exec_sql he
      have hsame : q ≠ .startTransaction →
          Desks T kit calls { s with store } (Function.update γ i (γ i)) := by
        intro hq
        refine h.exec hexec ha (h.index i) ?_ (fun e hmem => .inl hmem)
        exact fun hp => Store.exec_tx_none hexec (h.plain i hp) hq
      cases q with
      | startTransaction =>
        refine ⟨{ γ i with isOpen := true }, rfl, ?_⟩
        refine h.exec hexec ha (h.index i) ?_ (fun e hmem => .inl hmem)
        intro hp
        cases hp
      | commitTransaction | rollbackTransaction => exact ⟨γ i, rfl, hsame (by simp)⟩
      | stmt q =>
        have hkept := hsame (by simp)
        cases q with
        | selectForUpdate | insert | update | delete | malformed => exact ⟨γ i, rfl, hkept⟩
        | select t cond =>
          cases t with
          | products | orders | orderItems | processedMessages => exact ⟨γ i, rfl, hkept⟩
          | users =>
            cases a with
            | error e => exact ⟨γ i, ⟨rfl, e, rfl⟩, hkept⟩
            | ok rows =>
              by_cases hp : (γ i).isOpen = true
              · exact ⟨γ i, by simp [desks, Desk.Learns, Except.mapError, hp], hkept⟩
              · have hclosed : (γ i).isOpen = false := (Bool.not_eq_true _).mp hp
                obtain ⟨hlisted, hrows⟩ := h.listed hclosed hexec
                refine ⟨{ γ i with known := (γ i).known ++ (show List (Uuid × User) from rows) },
                  ?_, ?_⟩
                · simpa [desks, Desk.Learns, Except.mapError, hclosed] using hlisted
                · refine h.exec hexec ha (h.index i) ?_ ?_
                  · exact fun _ => Store.exec_tx_none hexec (h.plain i hclosed) (by simp)
                  · intro e hmem
                    exact (List.mem_append.mp hmem).imp_right (hrows e)

section Columns

variable {T : Database} {kit : Kit} {calls : List ApiCall} {L : List (Commit schema)} {id : Uuid}
  {α : Type} {f : User → α} {given : UpdateUser → Option α}

theorem Source.getD {j : Nat} {updates : UpdateUser} {v : α} (haimed : Aimed calls j updates id)
    (hv : Source T kit calls f given L id v) :
    Source T kit calls f given L id ((given updates).getD v) := by
  cases hgiven : given updates with
  | none => exact hv
  | some w => exact .inr (.inr ⟨j, updates, haimed, hgiven⟩)

theorem Source.column [DecidableEq α] {entity reread row : α}
    (hentity : Source T kit calls f given L id entity)
    (hrow : Source T kit calls f given L id row) :
    Source T kit calls f given L id (column entity reread row) := by
  unfold Ecomm.column
  split
  · exact hrow
  · exact hentity

theorem Source.arrayColumn [DecidableEq α] {entity reread row : α} (byValue : Bool)
    (hentity : Source T kit calls f given L id entity)
    (hrow : Source T kit calls f given L id row) :
    Source T kit calls f given L id (arrayColumn byValue entity reread row) := by
  cases byValue with
  | false => exact hentity
  | true => exact hentity.column hrow

/-- The hash that `preload` has found is not written. -/
theorem Sourced.set {j : Nat} {updates : UpdateUser} {user reread r : User} (byValue : Bool)
    (haimed : Aimed calls j updates id) (huser : Sourced T kit calls L id user)
    (hr : Sourced T kit calls L id r) (now : Nat) :
    Sourced T kit calls L id (updates.set byValue (updates.merge user) reread now r) where
  email := (huser.email.getD haimed).column hr.email
  passwordHash := hr.passwordHash.getD haimed
  roles := (huser.roles.getD haimed).arrayColumn byValue hr.roles
  scopes := (huser.scopes.getD haimed).arrayColumn byValue hr.scopes

end Columns

end Ecomm
