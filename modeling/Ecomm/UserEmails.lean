import Ecomm.ProductsService
import Ecomm.Stock
import Ecomm.Lib.Growing

/-! Calls of `UsersService.create` in any order of their steps: a call looks for
its email and inserts the user in a transaction of its own, so another call can
store the email in between. -/

namespace Ecomm.UsersService

open Concurrent Sql

structure CreateUser where
  email : String
  password : Option String
  roles : Option (List String)
  scopes : Option (List String)

def CreateUser.program (hash : String → String) (call : CreateUser) : App (Uuid × User) :=
  create hash call.email call.password call.roles call.scopes

abbrev creating (hash : String → String) (s : AppState) (calls : List CreateUser) :
    Config app (Uuid × User) :=
  ⟨s, fun i => calls[i]?.map (CreateUser.program hash)⟩

inductive Stage where
  | looking
  | missing
  | opened
  | inserted (id : Uuid) (user : User)
  | rolling
  | returned (id : Uuid) (user : User)
  | failed

structure Creating where
  email : String
  stage : Stage

namespace Creating

def Allowed (g : Creating) : AppOp → Prop
  | .sql (.stmt (.select .users cond)) =>
    g.stage = .looking ∧ ∀ id r, cond id r = true ↔ r.email = g.email
  | .sql .startTransaction => g.stage = .missing
  | .sql (.stmt (.insert .users none row)) => g.stage = .opened ∧
    ∀ now, (row now).email = g.email ∧ columnTypes .users (row now) = varchar 320 g.email
  | .sql .commitTransaction => ∃ id user, g.stage = .inserted id user
  | .sql .rollbackTransaction => g.stage = .rolling
  | _ => False

def after : Stage → (o : AppOp) → Except Thrown o.Ans → Stage
  | .looking, .sql (.stmt (.select .users _)), .ok rows =>
    (show List (Uuid × User) from rows).head?.elim .missing (fun e => .returned e.1 e.2)
  | .missing, .sql .startTransaction, .ok _ => .opened
  | .opened, .sql (.stmt (.insert .users _ _)), .ok e =>
    .inserted (show Uuid × User from e).1 (show Uuid × User from e).2
  | .inserted id user, .sql .commitTransaction, .ok _ => .returned id user
  | .looking, _, _ | .rolling, _, _ => .failed
  | _, _, _ => .rolling

def protocol : Protocol AppOp AppOp.Ans Thrown Creating where
  allowed := Allowed
  next g o r g' := g' = ⟨g.email, after g.stage o r⟩

def Stands (g : Creating) (s : Store schema) (i : Nat) : Prop :=
  match g.stage with
  | .looking | .missing | .failed => s.tx i = none
  | .opened => s.tx i = some ⟨[], false⟩
  | .inserted id user => s.tx i = some ⟨[⟨.users, id, some user⟩], false⟩ ∧
    (s.tables .users).lookup id = none ∧ user.email = g.email ∧ varchar 320 user.email = none
  | .rolling => ∀ x, s.tx i = some x → x.writes = []
  | .returned id user =>
    s.tx i = none ∧ (s.tables .users).lookup id = some user ∧ user.email = g.email

end Creating

open Creating

section Program

variable {hash : String → String} {email : String}

theorem wp_insertUser {row : Nat → User} (hrow : ∀ now, (row now).email = email ∧
    columnTypes .users (row now) = varchar 320 email) :
    (transaction (insert .users none row)).wp protocol
      (fun a g => g = ⟨email, .returned a.1 a.2⟩) (fun _ g => g = ⟨email, .failed⟩)
      ⟨email, .missing⟩ := by
  have hcatch : ∀ (e : Thrown) (g : Creating), g = ⟨email, .rolling⟩ → (do
        try rollbackTransaction catch _ => pure ()
        throw e : App (Uuid × User)).wp protocol
      (fun a g => g = ⟨email, .returned a.1 a.2⟩) (fun _ g => g = ⟨email, .failed⟩) g := by
    intro e g hg
    subst hg
    refine (Prog.wp_bind _ _ _ _ _).mpr ((Prog.wp_tryCatch _ _ _ _ _).mpr
      ((Prog.wp_await _ _ _ _).mpr ⟨rfl, ?_, ?_⟩))
    · exact fun _ _ hg => hg
    · exact fun _ _ hg => hg
  refine (Prog.wp_tryCatch _ _ _ _ _).mpr ((Prog.wp_bind _ _ _ _ _).mpr
    ((Prog.wp_await _ _ _ _).mpr ⟨rfl, ?_, fun e g hg => hcatch e g hg⟩))
  intro _ g₁ hg₁
  obtain rfl : g₁ = ⟨email, .opened⟩ := hg₁
  refine (Prog.wp_bind _ _ _ _ _).mpr
    ((Prog.wp_await _ _ _ _).mpr ⟨⟨rfl, hrow⟩, ?_, fun e g hg => hcatch e g hg⟩)
  intro user g₂ hg₂
  obtain ⟨id, user⟩ : Uuid × User := user
  obtain rfl : g₂ = ⟨email, .inserted id user⟩ := hg₂
  refine (Prog.wp_bind _ _ _ _ _).mpr
    ((Prog.wp_await _ _ _ _).mpr ⟨⟨id, user, rfl⟩, ?_, fun e g hg => hcatch e g hg⟩)
  exact fun _ _ hg => hg

/-- A call returns the user that it has found or inserted. -/
theorem wp_create (hhash : ∀ p, (hash p).length ≤ 255) (call : CreateUser) :
    (call.program hash).wp protocol (fun a g => g = ⟨call.email, .returned a.1 a.2⟩)
      (fun _ g => g = ⟨call.email, .failed⟩) ⟨call.email, .looking⟩ := by
  refine (Prog.wp_bind _ _ _ _ _).mpr ((Prog.wp_bind _ _ _ _ _).mpr
    ((Prog.wp_await _ _ _ _).mpr ⟨⟨rfl, fun _ _ => decide_eq_true_iff⟩, ?_, ?_⟩))
  · intro rows g hg
    cases hrows : (show List (Uuid × User) from rows).head? with
    | some e =>
      simp only [protocol, after, hrows, Option.elim_some] at hg
      exact hg
    | none =>
      simp only [protocol, after, hrows, Option.elim_none] at hg
      subst hg
      apply wp_insertUser
      intro now
      refine ⟨rfl, ?_⟩
      have hpassword : ((truthy call.password).map hash).bind (varchar 255) = none := by
        cases truthy call.password with
        | none => rfl
        | some p => simp [varchar, hhash p]
      simp only [columnTypes, hpassword]
      cases varchar 320 call.email <;> rfl
  · exact fun _ _ hg => hg

end Program

/-- What the calls keep, from the database `T` on: the users that were there,
and emails that fit in their column. -/
structure Kept (T : Database) (s : AppState) (γ : Nat → Creating) : Prop where
  coherent : s.store.Coherent
  old : ∀ id r, (T .users).lookup id = some r → (s.store.tables .users).lookup id = some r
  fits : ∀ id r, (s.store.tables .users).lookup id = some r →
    (T .users).lookup id = some r ∨ varchar 320 r.email = none
  stages : ∀ i, (γ i).Stands s.store i

section Steps

variable {T : Database} {s : AppState} {γ : Nat → Creating} {i : Nat} {store : Store schema}
  {g : Creating}

theorem Stands.frame {s s' : Store schema} {j : Nat} (h : g.Stands s j) (htx : s'.tx j = s.tx j)
    (hkeep : ∀ id r, (s.tables .users).lookup id = some r → (s'.tables .users).lookup id = some r)
    (hnone : ∀ id user, g.stage = .inserted id user → (s.tables .users).lookup id = none →
      (s'.tables .users).lookup id = none) : g.Stands s' j := by
  obtain ⟨email, stage⟩ := g
  cases stage with
  | looking | missing | opened | failed => exact htx.trans h
  | inserted id user => exact ⟨htx.trans h.1, hnone id user rfl h.2.1, h.2.2⟩
  | rolling =>
    intro x hx
    exact h x (htx.symm.trans hx)
  | returned id user => exact ⟨htx.trans h.1, hkeep id user h.2.1, h.2.2⟩

theorem Kept.same (h : Kept T s γ) (hcoherent : store.Coherent)
    (htables : store.tables = s.store.tables) (hothers : ∀ j, j ≠ i → store.tx j = s.store.tx j)
    (hself : g.Stands store i) : Kept T { s with store } (Function.update γ i g) where
  coherent := hcoherent
  old id r hr := by
    rw [htables]
    exact h.old id r hr
  fits id r hr := by
    rw [htables] at hr
    exact h.fits id r hr
  stages j := by
    by_cases hj : j = i
    · subst hj
      rw [Function.update_self]
      exact hself
    · rw [Function.update_of_ne hj]
      refine Stands.frame (h.stages j) (hothers j hj) ?_ ?_
      · intro id r hr
        rw [htables]
        exact hr
      · intro id user _ hnone
        rw [htables]
        exact hnone

theorem Kept.commit (h : Kept T s γ) {id : Uuid} {user : User}
    (hstage : (γ i).stage = .inserted id user)
    (hcoherent : ((s.store.publish i [⟨.users, id, some user⟩]).close i).Coherent) :
    Kept T { s with store := (s.store.publish i [⟨.users, id, some user⟩]).close i }
      (Function.update γ i ⟨(γ i).email, .returned id user⟩) := by
  have hstands := h.stages i
  simp only [Stands, hstage] at hstands
  obtain ⟨htx, hnone, hemail, hfits⟩ := hstands
  have hself : (s.store.tables.replay [⟨.users, id, some user⟩] .users).lookup id = some user :=
    Tables.lookup_write_self (S := schema) s.store.tables .users id (some user)
  have hother : ∀ j, j ≠ id → (s.store.tables.replay [⟨.users, id, some user⟩] .users).lookup j =
      (s.store.tables .users).lookup j := by
    intro j hj
    apply Tables.lookup_replay_other (S := schema)
    intro w hw hat
    obtain rfl := List.mem_singleton.mp hw
    exact hj hat.2.symm
  have hkeep : ∀ j r, (s.store.tables .users).lookup j = some r →
      (s.store.tables.replay [⟨.users, id, some user⟩] .users).lookup j = some r := by
    intro j r hr
    by_cases hj : j = id
    · subst hj
      rw [hnone] at hr
      cases hr
    · rw [hother j hj]
      exact hr
  refine ⟨hcoherent, fun j r hr => hkeep j r (h.old j r hr), ?_, ?_⟩
  · intro j r hr
    by_cases hj : j = id
    · subst hj
      obtain rfl := Option.some.inj (hself.symm.trans hr)
      exact .inr hfits
    · have hr : (s.store.tables.replay [⟨.users, id, some user⟩] .users).lookup j = some r := hr
      rw [hother j hj] at hr
      exact h.fits j r hr
  · intro j
    by_cases hj : j = i
    · subst hj
      rw [Function.update_self]
      exact ⟨Store.close_tx_self _ _, hself, hemail⟩
    · rw [Function.update_of_ne hj]
      refine Stands.frame (h.stages j) (Store.close_tx_other _ hj) hkeep ?_
      intro id' user' hstage' hnone'
      by_cases hid : id' = id
      · subst hid
        -- Both threads would hold the lock of the row.
        have hstands' := h.stages j
        simp only [Stands, hstage'] at hstands'
        have hown := h.coherent.rowOwned i _ ⟨.users, id', some user⟩ htx List.mem_cons_self
        have hown' := h.coherent.rowOwned j _ ⟨.users, id', some user'⟩ hstands'.1
          List.mem_cons_self
        exact absurd (Option.some.inj (hown'.symm.trans hown)) hj
      · have hlookup := hother id' hid
        exact hlookup.trans hnone'

theorem Kept.exec (h : Kept T s γ) {c : Choice schema} {o : Sql.Op schema}
    {r : Except SqlError o.Ans} (hexec : s.store.exec i c o = some (r, store))
    (htables : store.tables = s.store.tables) (hself : g.Stands store i) :
    Kept T { s with store } (Function.update γ i g) :=
  h.same (h.coherent.exec hexec) htables (fun _ hj => Store.exec_tx_other hexec hj) hself

theorem Kept.select (h : Kept T s γ) {cond : Uuid → User → Bool}
    (hcond : ∀ id r, cond id r = true ↔ r.email = (γ i).email) (hstage : (γ i).stage = .looking)
    {c : Choice schema} {r : Except SqlError (List (Uuid × User))}
    (hstep : s.store.Step i c (.stmt (.select .users cond)) r store) :
    Kept T { s with store } (Function.update γ i
      ⟨(γ i).email, after .looking (.sql (.stmt (.select .users cond))) (r.mapError .sql)⟩) := by
  have htx : s.store.tx i = none := by
    have hstands := h.stages i
    simp only [Stands, hstage] at hstands
    exact hstands
  have hfailed : ∀ e, r = .error e → store = s.store → Kept T { s with store } (Function.update γ i
      ⟨(γ i).email, after .looking (.sql (.stmt (.select .users cond))) (r.mapError .sql)⟩) := by
    intro e he hsame
    subst he hsame
    exact h.same h.coherent rfl (fun _ _ => rfl) htx
  cases hstep with
  | fault | refused => exact hfailed _ rfl (Store.abort_none htx)
  | aborted => exact hfailed _ rfl rfl
  | done q ls a ws ha hq hl =>
    cases hq
    rw [Store.perform_none_nil htx]
    refine h.same h.coherent rfl (fun _ _ => rfl) ?_
    rw [Store.view_none htx]
    cases hrows : ((((s.store.tables .users).entries.filter (fun e => cond e.1 e.2)).map
        (fun e => (e.1, e.2))).head?) with
    | none =>
      simp only [Except.mapError, after, hrows, Option.elim_none]
      exact htx
    | some e =>
      simp only [Except.mapError, after, hrows, Option.elim_some]
      obtain ⟨x, hx, rfl⟩ := List.mem_map.mp (List.mem_of_mem_head? (Option.mem_def.mpr hrows))
      obtain ⟨hmem, hemail⟩ := List.mem_filter.mp hx
      exact ⟨htx, AList.mem_lookup_iff.mpr hmem, (hcond _ _).mp hemail⟩

theorem protocol_sound : protocol.Sound app Always (Kept T) where
  exec {s γ i ch o r s'} hinv _ ha he := by
    refine ⟨_, rfl, ?_⟩
    have ha : (γ i).Allowed o := ha
    have hstands := hinv.stages i
    unfold Allowed at ha
    split at ha
    · obtain ⟨a, store, hexec, rfl, rfl⟩ := AppState.exec_sql he
      rw [ha.1]
      exact hinv.select ha.2 ha.1 (Store.exec_step hexec)
    · obtain ⟨a, store, hexec, rfl, rfl⟩ := AppState.exec_sql he
      simp only [Stands, ha] at hstands
      rw [ha]
      cases Store.exec_step hexec with
      | startFault =>
        refine hinv.exec hexec rfl ?_
        intro x hx
        rw [hstands] at hx
        cases hx
      | start => exact hinv.exec hexec rfl (Store.start_tx_self _ _)
    · obtain ⟨a, store, hexec, rfl, rfl⟩ := AppState.exec_sql he
      simp only [Stands, ha.1] at hstands
      rw [ha.1]
      have habort : ∀ x, (s.store.abort i).tx i = some x → x.writes = [] := by
        intro x hx
        rw [Store.abort_tx_self hstands] at hx
        obtain rfl := Option.some.inj hx
        rfl
      cases Store.exec_step hexec with
      | fault | refused => exact hinv.exec hexec (Store.abort_tables _ _) habort
      | aborted =>
        refine hinv.exec hexec rfl ?_
        intro x hx
        obtain rfl := Option.some.inj (hstands.symm.trans hx)
        rfl
      | done q ls a ws _ hq =>
        cases hq with
        | insert _ _ _ hnew hallow =>
          have hcheck := (allow_ok hallow).1
          obtain ⟨hemail, htypes⟩ := ha.2 ch.sql.now
          have hview : s.store.view i = s.store.tables := by
            rw [Store.view_some hstands, Tables.replay_nil]
          rw [hview] at hnew
          refine hinv.exec hexec (Store.perform_tables_some hstands _ _)
            ⟨Store.perform_tx_some hstands _ _, ?_, hemail, ?_⟩
          · rw [Store.perform_tables_some hstands]
            exact hnew
          · exact (congrArg (varchar 320) hemail).trans (htypes.symm.trans hcheck)
    · obtain ⟨id, user, hstage⟩ := ha
      obtain ⟨a, store, hexec, rfl, rfl⟩ := AppState.exec_sql he
      simp only [Stands, hstage] at hstands
      rw [hstage]
      have hclosed : ∀ x, (s.store.close i).tx i = some x → x.writes = [] := by
        intro x hx
        rw [Store.close_tx_self] at hx
        cases hx
      cases Store.exec_step hexec with
      | commitNone htx =>
        rw [htx] at hstands
        cases hstands.1
      | commitFault => exact hinv.exec hexec rfl hclosed
      | commitAborted x htx hx =>
        obtain rfl := Option.some.inj (hstands.1.symm.trans htx)
        cases hx
      | commit x htx =>
        obtain rfl := Option.some.inj (hstands.1.symm.trans htx)
        exact hinv.commit hstage (hinv.coherent.exec hexec)
    · obtain ⟨a, store, hexec, rfl, rfl⟩ := AppState.exec_sql he
      rw [ha]
      cases Store.exec_step hexec with
      | rollbackFault | rollback => exact hinv.exec hexec rfl (Store.close_tx_self _ _)
    · exact ha.elim

end Steps

def emailOf (calls : List CreateUser) (i : Nat) : String := calls[i]?.elim "" CreateUser.email

def Stored (T : Database) (email : String) : Prop :=
  ∃ id r, (T .users).lookup id = some r ∧ r.email = email

/-- The call of thread `i` is not about to insert an email that is stored. -/
def Clear (calls : List CreateUser) (s : AppState) (i : Nat) : Prop :=
  s.store.tx i = some ⟨[], false⟩ → ¬ Stored s.store.tables (emailOf calls i)

def Stage.Bad : Stage → Prop
  | .rolling | .failed => True
  | _ => False

theorem bad_of_error (stage : Stage) (o : AppOp) (e : Thrown) :
    (after stage o (.error e)).Bad := by
  unfold after
  split
  case h_1 | h_2 | h_3 | h_4 => contradiction
  all_goals exact trivial

structure Creates (T : Database) (calls : List CreateUser) (c : Config app (Uuid × User))
    (γ : Nat → Creating) : Prop where
  follows : Follows protocol (Kept T) (fun _ a g => g.stage = .returned a.1 a.2)
    (fun _ _ g => g.stage = .failed) c γ
  email : ∀ i, (γ i).email = emailOf calls i

section Runs

variable {T : Database} {calls : List CreateUser} {c c' : Config app (Uuid × User)}
  {γ : Nat → Creating} {i : Nat} {ch : AppChoice} {es : List (Nat × AppChoice)}

theorem Creates.step (h : Creates T calls c γ) (hstep : c.step i ch = some c') :
    ∃ o r, (γ i).Allowed o ∧ c.shared.exec i ch o = some (r, c'.shared) ∧
      Creates T calls c' (Function.update γ i ⟨(γ i).email, after (γ i).stage o r⟩) := by
  obtain ⟨o, r, g, hallowed, he, rfl, hfollows⟩ := protocol_sound.step_exec h.follows trivial hstep
  refine ⟨o, r, hallowed, he, hfollows, ?_⟩
  intro j
  by_cases hj : j = i
  · subst hj
    rw [Function.update_self]
    exact h.email j
  · rw [Function.update_of_ne hj]
    exact h.email j

/-- An insert of an email that is stored is refused. -/
theorem stored_refused {s : Store schema} {c : Choice schema} {row : Nat → User} {email : String}
    {store : Store schema} {r : Except SqlError (Uuid × User)} (htx : s.tx i = some ⟨[], false⟩)
    (hrow : ∀ now, (row now).email = email) (hstored : Stored s.tables email)
    (hstep : s.Step i c (.stmt (.insert .users none row)) r store) : ∃ e, r = .error e := by
  cases hstep with
  | fault | refused | aborted => exact ⟨_, rfl⟩
  | done q ls a ws _ hq =>
    cases hq with
    | insert _ _ _ hnew hallow =>
      obtain ⟨id, user, hlookup, hemail⟩ := hstored
      rw [Store.view_some htx, Tables.replay_nil] at hnew hallow
      have hkey := (allow_ok hallow).2.1
      have hne : id ≠ c.id := by
        rintro rfl
        cases hlookup.symm.trans hnew
      have htaken : keyTaken s.tables Table.users c.id (row c.now) = true := by
        refine List.any_eq_true.mpr ⟨⟨id, user⟩, AList.mem_lookup_iff.mp hlookup, ?_⟩
        simp only [Bool.and_eq_true, decide_eq_true_eq]
        refine ⟨hne, List.any_eq_true.mpr ⟨.email user.email, List.mem_singleton_self _, ?_⟩⟩
        rw [hemail, ← hrow c.now]
        exact decide_eq_true (List.mem_singleton_self _)
      cases hkey.symm.trans htaken

/-- An insert of an email that fits and is not stored is done. -/
theorem clear_inserted {s : Store schema} {c : Choice schema} {row : Nat → User} {email : String}
    {store : Store schema} {r : Except SqlError (Uuid × User)} (htx : s.tx i = some ⟨[], false⟩)
    (hrow : ∀ now, (row now).email = email ∧ columnTypes .users (row now) = varchar 320 email)
    (hfits : email.length ≤ 320) (hclear : ¬ Stored s.tables email) (hfault : c.fault = false)
    (hstep : s.Step i c (.stmt (.insert .users none row)) r store) : ∃ a, r = .ok a := by
  have hview : s.view i = s.tables := by rw [Store.view_some htx, Tables.replay_nil]
  have hopen : s.isAborted i = false := by simp [Store.isAborted, htx]
  have hcheck : columnTypes .users (row c.now) = none := by
    rw [(hrow c.now).2, varchar, if_neg (by omega)]
  have hkey : ∀ id, keyTaken s.tables Table.users id (row c.now) = false := by
    intro id
    by_contra htaken
    obtain ⟨e, he, hkeys⟩ := List.any_eq_true.mp ((Bool.not_eq_false _).mp htaken)
    obtain ⟨k, hk, hmem⟩ := List.any_eq_true.mp (Bool.and_eq_true_iff.mp hkeys).2
    obtain rfl : k = UniqueKey.email e.2.email := List.mem_singleton.mp hk
    have hsame : UniqueKey.email e.2.email = .email (row c.now).email :=
      List.mem_singleton.mp (of_decide_eq_true hmem)
    exact hclear ⟨e.1, e.2, AList.mem_lookup_iff.mpr he,
      (UniqueKey.email.inj hsame).trans (hrow c.now).1⟩
  cases hstep with
  | fault _ hf => cases hfault.symm.trans hf
  | aborted _ ha => cases hopen.symm.trans ha
  | done => exact ⟨_, rfl⟩
  | refused q p e _ hp _ hr =>
    rw [hview] at hp
    simp only [Stmt.plan, Option.getD_none, Option.isNone_none, if_true] at hp
    split at hp
    · cases hp
    · obtain rfl := Option.some.inj hp
      have hallow := map_error hr
      rw [allow_intro hcheck (hkey c.id) rfl] at hallow
      cases hallow

theorem Creates.good_step (h : Creates T calls c γ) (hstep : c.step i ch = some c')
    (hfault : ch.sql.fault = false) (hgood : ¬ (γ i).stage.Bad) (hclear : Clear calls c.shared i)
    (hfits : (emailOf calls i).length ≤ 320 ∨ Stored T (emailOf calls i)) :
    ∃ g, ¬ g.stage.Bad ∧ Creates T calls c' (Function.update γ i g) := by
  obtain ⟨o, r, hallowed, he, hcreates⟩ := h.step hstep
  refine ⟨_, ?_, hcreates⟩
  have hstands := h.follows.inv.stages i
  unfold Allowed at hallowed
  split at hallowed
  · obtain ⟨a, store, hexec, rfl, _⟩ := AppState.exec_sql he
    simp only [Stands, hallowed.1] at hstands
    have hopen : c.shared.store.isAborted i = false := by simp [Store.isAborted, hstands]
    rw [Store.exec_select_view hfault hopen] at hexec
    obtain ⟨rfl, _⟩ := Prod.mk.inj (Option.some.inj hexec)
    rw [hallowed.1]
    simp only [Except.mapError, after]
    cases List.head? _ <;> exact fun hbad => hbad
  · obtain ⟨a, store, hexec, rfl, _⟩ := AppState.exec_sql he
    simp only [Store.exec, hfault, Bool.false_eq_true, if_false] at hexec
    obtain ⟨rfl, _⟩ := Prod.mk.inj (Option.some.inj hexec)
    rw [hallowed]
    exact fun hbad => hbad
  · obtain ⟨a, store, hexec, rfl, _⟩ := AppState.exec_sql he
    simp only [Stands, hallowed.1] at hstands
    have hnew := hclear hstands
    have hlength : (emailOf calls i).length ≤ 320 := by
      refine hfits.resolve_right ?_
      intro hold
      obtain ⟨id, r, hr, hemail⟩ := hold
      exact hnew ⟨id, r, h.follows.inv.old id r hr, hemail⟩
    rw [← h.email i] at hlength hnew
    obtain ⟨b, rfl⟩ := clear_inserted hstands hallowed.2 hlength hnew hfault (Store.exec_step hexec)
    rw [hallowed.1]
    exact fun hbad => hbad
  · obtain ⟨id, user, hstage⟩ := hallowed
    obtain ⟨a, store, hexec, rfl, _⟩ := AppState.exec_sql he
    simp only [Stands, hstage] at hstands
    simp only [Store.exec, hstands.1, hfault, Bool.false_eq_true, if_false] at hexec
    obtain ⟨rfl, _⟩ := Prod.mk.inj (Option.some.inj hexec)
    rw [hstage]
    exact fun hbad => hbad
  · rw [hallowed] at hgood
    exact absurd trivial hgood
  · exact hallowed.elim

theorem Creates.good_run (h : Creates T calls c γ) (hgood : ∀ i, ¬ (γ i).stage.Bad)
    (hfits : ∀ i, (emailOf calls i).length ≤ 320 ∨ Stored T (emailOf calls i))
    (hclear : c.Meets (Clear calls) es) (hfault : ∀ e ∈ es, e.2.sql.fault = false)
    (hrun : c.run es = some c') : ∃ γ', Creates T calls c' γ' ∧ ∀ i, ¬ (γ' i).stage.Bad := by
  induction es generalizing c γ with
  | nil =>
    obtain rfl := Option.some.inj hrun
    exact ⟨γ, h, hgood⟩
  | cons e es ih =>
    obtain ⟨d, hd, hrest⟩ := Config.run_cons hrun
    obtain ⟨g, hg, hstep⟩ := h.good_step hd (hfault e List.mem_cons_self) (hgood e.1) hclear.1
      (hfits e.1)
    refine ih hstep ?_ (hclear.2 d hd) (fun f hf => hfault f (List.mem_cons_of_mem _ hf)) hrest
    intro j
    by_cases hj : j = e.1
    · subst hj
      rw [Function.update_self]
      exact hg
    · rw [Function.update_of_ne hj]
      exact hgood j

theorem Creates.bad_run (h : Creates T calls c γ) (hbad : (γ i).stage.Bad)
    (hrun : c.run es = some c') (a : Uuid × User) : c'.thread i ≠ some (.ret a) := by
  induction es generalizing c γ with
  | nil =>
    obtain rfl := Option.some.inj hrun
    intro hret
    have hreturned := h.follows.thread i _ hret
    rw [hreturned] at hbad
    exact hbad
  | cons e es ih =>
    obtain ⟨d, hd, hrest⟩ := Config.run_cons hrun
    obtain ⟨o, r, hallowed, _, hstep⟩ := h.step hd
    refine ih hstep ?_ hrest
    by_cases hi : i = e.1
    · subst hi
      rw [Function.update_self]
      cases hstage : (γ e.1).stage with
      | rolling | failed => cases o <;> exact trivial
      | _ =>
        rw [hstage] at hbad
        exact hbad.elim
    · rw [Function.update_of_ne hi]
      exact hbad

theorem Creates.run (h : Creates T calls c γ) (hrun : c.run es = some c') :
    ∃ γ', Creates T calls c' γ' := by
  induction es generalizing c γ with
  | nil =>
    obtain rfl := Option.some.inj hrun
    exact ⟨γ, h⟩
  | cons e es ih =>
    obtain ⟨d, hd, hrest⟩ := Config.run_cons hrun
    obtain ⟨_, _, _, _, hstep⟩ := h.step hd
    exact ih hstep hrest

theorem Creates.fault_bad {o : AppOp} {r : Except Thrown o.Ans} (h : Creates T calls c γ)
    (hallowed : (γ i).Allowed o) (he : c.shared.exec i ch o = some (r, c'.shared))
    (hfault : ch.sql.fault = true) : (after (γ i).stage o r).Bad := by
  have hstands := h.follows.inv.stages i
  cases o with
  | sql q =>
    obtain ⟨a, store, hexec, rfl, _⟩ := AppState.exec_sql he
    have hopen : q = .commitTransaction → c.shared.store.tx i ≠ none := by
      rintro rfl
      obtain ⟨id, user, hstage⟩ := hallowed
      simp only [Stands, hstage] at hstands
      rw [hstands.1]
      exact Option.some_ne_none _
    obtain ⟨e, rfl⟩ := Store.exec_fault hexec hfault hopen
    exact bad_of_error _ _ _
  | _ => exact hallowed.elim

theorem Creates.stored_bad {o : AppOp} {r : Except Thrown o.Ans} (h : Creates T calls c γ)
    (hallowed : (γ i).Allowed o) (he : c.shared.exec i ch o = some (r, c'.shared))
    (htx : c.shared.store.tx i = some ⟨[], false⟩)
    (hstored : Stored c.shared.store.tables (emailOf calls i)) :
    (after (γ i).stage o r).Bad := by
  have hstands := h.follows.inv.stages i
  unfold Allowed at hallowed
  split at hallowed
  · simp only [Stands, hallowed.1] at hstands
    cases hstands.symm.trans htx
  · simp only [Stands, hallowed] at hstands
    cases hstands.symm.trans htx
  · obtain ⟨a, store, hexec, rfl, _⟩ := AppState.exec_sql he
    rw [← h.email i] at hstored
    obtain ⟨error, rfl⟩ := stored_refused htx (fun now => (hallowed.2 now).1) hstored
      (Store.exec_step hexec)
    exact bad_of_error _ _ _
  · obtain ⟨id, user, hstage⟩ := hallowed
    simp only [Stands, hstage] at hstands
    cases Option.some.inj (hstands.1.symm.trans htx)
  · rw [hallowed]
    trivial
  · exact hallowed.elim

/-- If all calls return, the server has not failed and none of them was about to
insert a stored email. -/
theorem Creates.meets (h : Creates T calls c γ) (hrun : c.run es = some c')
    (hret : ∀ i, c.thread i ≠ none → ∃ a, c'.thread i = some (.ret a)) :
    (∀ e ∈ es, e.2.sql.fault = false) ∧ c.Meets (Clear calls) es := by
  induction es generalizing c γ with
  | nil => exact ⟨by simp, trivial⟩
  | cons e es ih =>
    obtain ⟨d, hd, hrest⟩ := Config.run_cons hrun
    obtain ⟨o, r, hallowed, he, hstep⟩ := h.step hd
    obtain ⟨_, _, _, _, hthread, _, _⟩ := Config.step_cases hd
    obtain ⟨a, ha⟩ := hret e.1 (by rw [hthread]; exact nofun)
    have hgood : ¬ (after (γ e.1).stage o r).Bad := by
      intro hbad
      refine hstep.bad_run (i := e.1) ?_ hrest a ha
      rw [Function.update_self]
      exact hbad
    have hlater : ∀ i, d.thread i ≠ none → ∃ a, c'.thread i = some (.ret a) := by
      intro i hi
      apply hret i
      intro hnone
      have hne : i ≠ e.1 := by
        rintro rfl
        rw [hthread] at hnone
        cases hnone
      exact hi ((Config.step_idle hd hne).trans hnone)
    obtain ⟨hfaults, hmeets⟩ := ih hstep hrest hlater
    refine ⟨?_, ?_, ?_⟩
    · intro f hf
      rcases List.mem_cons.mp hf with rfl | hf
      · by_contra hfault
        exact hgood (h.fault_bad hallowed he ((Bool.not_eq_false _).mp hfault))
      · exact hfaults f hf
    · intro htx hstored
      exact hgood (h.stored_bad hallowed he htx hstored)
    · intro d₁ hd₁
      obtain rfl := Option.some.inj (hd.symm.trans hd₁)
      exact hmeets

end Runs

def usersWith (T : Database) (email : String) : List Uuid :=
  ((T .users).entries.filter (fun e => e.2.email = email)).map (·.1)

theorem mem_usersWith {T : Database} {email : String} {id : Uuid} :
    id ∈ usersWith T email ↔ ∃ r, (T .users).lookup id = some r ∧ r.email = email := by
  constructor
  · intro hmem
    obtain ⟨e, he, rfl⟩ := List.mem_map.mp hmem
    obtain ⟨hentry, hemail⟩ := List.mem_filter.mp he
    exact ⟨e.2, AList.mem_lookup_iff.mpr hentry, of_decide_eq_true hemail⟩
  · intro hrow
    obtain ⟨r, hr, hemail⟩ := hrow
    exact List.mem_map.mpr ⟨⟨id, r⟩, List.mem_filter.mpr ⟨AList.mem_lookup_iff.mp hr,
      decide_eq_true hemail⟩, rfl⟩

/-- The unique index: one user at most has an email. -/
theorem usersWith_eq {T : Database} {email : String} {id : Uuid} {r : User} (hT : Distinct T)
    (hr : (T .users).lookup id = some r) (hemail : r.email = email) : usersWith T email = [id] := by
  have hmem : id ∈ usersWith T email := mem_usersWith.mpr ⟨r, hr, hemail⟩
  have hlength : (usersWith T email).length ≤ 1 := by
    rw [usersWith, List.length_map]
    refine length_filter_le_one_of_nodup (f := Sigma.fst) (T .users).nodupKeys ?_
    intro e he e' he' hp hp'
    refine hT .users e.1 e'.1 e.2 e'.2 (.email email) (AList.mem_lookup_iff.mpr he)
      (AList.mem_lookup_iff.mpr he') ?_ ?_
    · rw [← of_decide_eq_true hp]
      exact List.mem_singleton_self _
    · rw [← of_decide_eq_true hp']
      exact List.mem_singleton_self _
  match usersWith T email, hmem, hlength with
  | [j], hmem, _ => rw [List.mem_singleton.mp hmem]

/-- Every call returns the user that is the only one with its email. -/
def Idempotent (calls : List CreateUser) (c : Config app (Uuid × User)) : Prop :=
  ∀ i call, calls[i]? = some call → ∃ id, (∃ user, c.thread i = some (.ret (id, user))) ∧
    usersWith c.shared.store.tables call.email = [id]

def Ended (calls : List CreateUser) (c : Config app (Uuid × User)) : Prop :=
  ∀ i call, calls[i]? = some call →
    (∃ a, c.thread i = some (.ret a)) ∨ ∃ e, c.thread i = some (.raise e)

theorem creating_creates {hash : String → String} (hhash : ∀ p, (hash p).length ≤ 255)
    {s : AppState} (hs : s.Quiet) (calls : List CreateUser) :
    Creates s.store.tables calls (creating hash s calls) (fun i => ⟨emailOf calls i, .looking⟩) where
  follows := by
    refine ⟨⟨hs.coherent, fun _ _ hr => hr, fun _ _ hr => .inl hr, fun i => hs.tx i⟩, ?_⟩
    intro i p hp
    obtain ⟨call, hcall, rfl⟩ := Option.map_eq_some_iff.mp hp
    have hemail : emailOf calls i = call.email := by
      rw [emailOf, hcall]
      rfl
    rw [hemail]
    refine Prog.wp_mono (wp_create hhash call) ?_ ?_
    · intro a g hg
      rw [hg]
    · intro e g hg
      rw [hg]
  email _ := rfl

/-- In every run to the end, all calls return the one user with their email
exactly if no step fails in the server, each email can be stored, and no call
comes to its insert when its email has been stored since it looked. -/
theorem create_idempotent_iff {hash : String → String} (hhash : ∀ p, (hash p).length ≤ 255)
    {s : AppState} (hs : s.Quiet) {calls : List CreateUser} {es : List (Nat × AppChoice)}
    {c : Config app (Uuid × User)} (hrun : (creating hash s calls).run es = some c)
    (hended : Ended calls c) :
    Idempotent calls c ↔ (∀ e ∈ es, e.2.sql.fault = false) ∧
      (∀ call ∈ calls, call.email.length ≤ 320 ∨ Stored s.store.tables call.email) ∧
      (creating hash s calls).Meets (Clear calls) es := by
  have hstart := creating_creates hhash hs calls
  constructor
  · intro hidempotent
    have hreturned : ∀ i, (creating hash s calls).thread i ≠ none →
        ∃ a, c.thread i = some (.ret a) := by
      intro i hi
      obtain ⟨p, hp⟩ := Option.ne_none_iff_exists'.mp hi
      obtain ⟨call, hcall, _⟩ := Option.map_eq_some_iff.mp hp
      obtain ⟨id, ⟨user, hret⟩, _⟩ := hidempotent i call hcall
      exact ⟨(id, user), hret⟩
    obtain ⟨hfaults, hmeets⟩ := hstart.meets hrun hreturned
    refine ⟨hfaults, ?_, hmeets⟩
    intro call hcall
    obtain ⟨i, hi⟩ := List.mem_iff_getElem?.mp hcall
    obtain ⟨id, _, husers⟩ := hidempotent i call hi
    have hmem : id ∈ usersWith c.shared.store.tables call.email := by
      rw [husers]
      exact List.mem_singleton_self id
    obtain ⟨r, hr, hemail⟩ := mem_usersWith.mp hmem
    obtain ⟨γ, hend⟩ := hstart.run hrun
    rcases hend.follows.inv.fits id r hr with hold | hfits
    · exact .inr ⟨id, r, hold, hemail⟩
    · left
      rw [hemail, varchar] at hfits
      by_contra hlong
      rw [if_pos (by omega)] at hfits
      cases hfits
  · intro hcondition
    obtain ⟨hfault, hfits, hmeets⟩ := hcondition
    have hemails : ∀ i, (emailOf calls i).length ≤ 320 ∨
        Stored s.store.tables (emailOf calls i) := by
      intro i
      rw [emailOf]
      cases hcall : calls[i]? with
      | none => exact .inl (Nat.zero_le 320)
      | some call => exact hfits call (List.mem_of_getElem? hcall)
    obtain ⟨γ, hend, hgood⟩ := hstart.good_run (fun _ hbad => hbad) hemails hmeets hfault hrun
    intro i call hcall
    have hemail : emailOf calls i = call.email := by
      rw [emailOf, hcall]
      rfl
    rcases hended i call hcall with ⟨⟨id, user⟩, hret⟩ | ⟨e, hraise⟩
    · have hstage : (γ i).stage = .returned id user := hend.follows.thread i _ hret
      have hstands := hend.follows.inv.stages i
      simp only [Stands, hstage] at hstands
      refine ⟨id, ⟨user, hret⟩, usersWith_eq hend.follows.inv.coherent.distinct hstands.2.1 ?_⟩
      rw [hstands.2.2, hend.email i, hemail]
    · have hstage : (γ i).stage = .failed := hend.follows.thread i _ hraise
      exact absurd (by rw [hstage]; trivial) (hgood i)

def newUser : CreateUser := ⟨"eve@example.com", none, none, none⟩

def digest (_ : String) : String := "$2b$10$N9qo8uLOickgx2ZMRZoMyeIjZAgcfl7p92ldGxad68LJZdL17lhWy"

theorem digest_length (p : String) : (digest p).length ≤ 255 := by
  unfold digest
  decide

def oneByOne : List (Nat × AppChoice) := List.replicate 4 (0, tick 10) ++ [(1, tick 20)]

/-- Both calls look for the email before one of them stores it. -/
def bothLook : List (Nat × AppChoice) :=
  [(0, tick 10), (1, tick 20), (0, tick 10), (1, tick 20), (0, tick 10), (0, tick 10), (1, tick 20),
    (1, tick 20)]

def outcomeOf (c : Config app (Uuid × User)) (i : Nat) : Option (Uuid ⊕ Thrown) :=
  match c.thread i with
  | some (.ret a) => some (.inl a.1)
  | some (.raise e) => some (.inr e)
  | _ => none

theorem ended_of_outcomes {c : Config app (Uuid × User)} {x y : Uuid ⊕ Thrown}
    (h : (outcomeOf c 0, outcomeOf c 1) = (some x, some y)) : Ended [newUser, newUser] c := by
  have hend : ∀ i z, outcomeOf c i = some z →
      (∃ a, c.thread i = some (.ret a)) ∨ ∃ e, c.thread i = some (.raise e) := by
    intro i z hz
    unfold outcomeOf at hz
    split at hz
    · exact .inl ⟨_, by assumption⟩
    · exact .inr ⟨_, by assumption⟩
    · cases hz
  intro i call hcall
  match i with
  | 0 => exact hend 0 x (Prod.mk.inj h).1
  | 1 => exact hend 1 y (Prod.mk.inj h).2
  | i + 2 => cases hcall

theorem create_idempotent_iff_oneByOne :
    ∃ c, (creating digest (serving (penShop 1)) [newUser, newUser]).run oneByOne = some c ∧
      (Idempotent [newUser, newUser] c ↔ (∀ e ∈ oneByOne, e.2.sql.fault = false) ∧
        (∀ call ∈ [newUser, newUser],
          call.email.length ≤ 320 ∨ Stored (serving (penShop 1)).store.tables call.email) ∧
        (creating digest (serving (penShop 1)) [newUser, newUser]).Meets
          (Clear [newUser, newUser]) oneByOne) := by
  have hrun : ((creating digest (serving (penShop 1)) [newUser, newUser]).run oneByOne).map
      (fun c => (outcomeOf c 0, outcomeOf c 1)) = some (some (.inl 10), some (.inl 10)) := by
    decide +kernel
  obtain ⟨c, hc, houtcomes⟩ := Option.map_eq_some_iff.mp hrun
  exact ⟨c, hc, create_idempotent_iff digest_length (serving_quiet (penShop_distinct 1)) hc
    (ended_of_outcomes houtcomes)⟩

/-- The second call to insert the email fails, although its email could be
looked up again. -/
theorem create_races :
    ¬ ∀ hash : String → String, (∀ p, (hash p).length ≤ 255) → ∀ s : AppState, s.Quiet →
      ∀ calls es c, (∀ call ∈ calls, call.email.length ≤ 320) →
      (creating hash s calls).run es = some c → (∀ e ∈ es, e.2.sql.fault = false) →
      Ended calls c → Idempotent calls c := by
  intro h
  have hrun : ((creating digest (serving (penShop 1)) [newUser, newUser]).run bothLook).map
      (fun c => (outcomeOf c 0, outcomeOf c 1)) =
        some (some (.inl 10), some (.inr (.sql .uniqueViolation))) := by decide +kernel
  obtain ⟨c, hc, houtcomes⟩ := Option.map_eq_some_iff.mp hrun
  have hidempotent := h digest digest_length _ (serving_quiet (penShop_distinct 1)) _ _ c
    (by decide) hc (by decide) (ended_of_outcomes houtcomes)
  obtain ⟨id, ⟨user, hret⟩, _⟩ := hidempotent 1 newUser rfl
  have hraised := (Prod.mk.inj houtcomes).2
  rw [outcomeOf, hret] at hraised
  cases hraised

end Ecomm.UsersService
