import Ecomm.Lib.Alike
import Ecomm.Lib.Growing
import Ecomm.Awaited
import Ecomm.CreateSpec

/-! A call of `create` with the empty key beside the same call without a key,
on the same choices of the environment. -/

namespace Ecomm

open Concurrent Sql Prog

/-- Rows that are the same if the empty key counts as none. -/
def SameButKey (r r' : Order) : Prop :=
  { r with idempotencyKey := truthy r.idempotencyKey } =
    { r' with idempotencyKey := truthy r'.idempotencyKey }

theorem SameButKey.refl (r : Order) : SameButKey r r := rfl

abbrev AlikeOrders (T T' : Database) : Prop := Alike (S := schema) Table.orders SameButKey T T'

theorem SameButKey.createdAt {r r' : Order} (h : SameButKey r r') : r.createdAt = r'.createdAt := by
  have hcreated := congrArg Order.createdAt h
  exact hcreated

structure SameOrder (a b : OrderEntity) : Prop where
  id : a.id = b.id
  row : SameButKey a.row b.row
  items : a.items = b.items

/-- The tables differ in empty keys at most, and the rest not at all. -/
structure SameEffect (s t : AppState) : Prop where
  tables : AlikeOrders s.store.tables t.store.tables
  rest : t = { s with store := t.store }

theorem SameEffect.refl (s : AppState) : SameEffect s s := ⟨.refl SameButKey.refl _, rfl⟩

/-- Both calls answer with the same order, or both throw the same error. -/
def SameCall : Except Thrown CreateResult × AppState → Except Thrown CreateResult × AppState →
    Prop :=
  Both (fun a b s t => (SameOrder a.order b.order ∧ a.wasDuplicate = b.wasDuplicate) ∧
    SameEffect s t) (fun e e' s t => e = e' ∧ SameEffect s t)

/-- Thread `i` has done the same in both states but for the key of its order. -/
structure InStep (i : Nat) (s t : AppState) : Prop where
  store : s.store.Beside Table.orders SameButKey i t.store
  rest : t = { s with store := t.store }

section Steps

variable {s t : AppState} {i : Nat}

theorem together_sql {o o' : Sql.Op schema} {Q : o.Ans → o'.Ans → AppState → AppState → Prop}
    {E : Thrown → Thrown → AppState → AppState → Prop}
    (h : ∀ c : Sql.Choice schema, Option.Rel
      (Both (fun a b x y => Q a b { s with store := x } { t with store := y })
        (fun e e' x y => E (.sql e) (.sql e') { s with store := x } { t with store := y }))
      (s.store.exec i c o) (t.store.exec i c o')) :
    (sql o).Together app i Q E (sql o') s t := by
  refine together_await ?_
  intro ch
  have hch := h ch.sql
  show Option.Rel _ (s.exec i ch (.sql o)) (t.exec i ch (.sql o'))
  simp only [AppState.exec]
  revert hch
  generalize s.store.exec i ch.sql o = x, t.store.exec i ch.sql o' = y
  intro hch
  cases hch with
  | none => exact .none
  | @some x y hxy =>
    obtain ⟨r, store⟩ := x
    obtain ⟨r', store'⟩ := y
    cases r <;> cases r' <;> exact .some hxy

def AvoidsOrders : AppOp → Prop
  | .sql (.stmt q) => q.Avoids Table.orders
  | _ => False

theorem InStep.exec (h : InStep i s t) {ch : AppChoice} {o : AppOp} (ho : AvoidsOrders o) :
    Option.Rel (fun x y => x.1 = y.1 ∧ InStep i x.2 y.2) (s.exec i ch o) (t.exec i ch o) := by
  cases o with
  | sql o =>
    cases o with
    | stmt q =>
      have hexec := h.store.exec (c := ch.sql) SameButKey.refl ho
      have hrest := h.rest
      simp only [AppState.exec]
      revert hexec
      generalize s.store.exec i ch.sql (.stmt q) = x, t.store.exec i ch.sql (.stmt q) = y
      intro hexec
      cases hexec with
      | none => exact .none
      | @some x y hxy =>
        obtain ⟨a, store⟩ := x
        obtain ⟨b, store'⟩ := y
        obtain ⟨heq, hstore⟩ := hxy
        obtain rfl : a = b := heq
        cases a <;> exact .some ⟨rfl, hstore, by rw [hrest]⟩
    | startTransaction | commitTransaction | rollbackTransaction => exact ho.elim
  | channelReady | sendToQueue | settle | publishStatusChanged | randomUUID | dateNow =>
    exact ho.elim

theorem together_aside {α : Type} {p : App α} (hp : p.Awaits AvoidsOrders) (h : InStep i s t) :
    p.Together app i (fun a b s t => a = b ∧ InStep i s t) (fun e e' s t => e = e' ∧ InStep i s t)
      p s t :=
  together_same (fun _ _ _ _ hst ho => hst.exec ho) hp h

def Outside : AppOp → Prop
  | .channelReady | .sendToQueue _ | .randomUUID => True
  | _ => False

theorem SameEffect.exec (h : SameEffect s t) {ch : AppChoice} {o : AppOp} (ho : Outside o) :
    Option.Rel (fun x y => x.1 = y.1 ∧ SameEffect x.2 y.2) (s.exec i ch o) (t.exec i ch o) := by
  obtain ⟨htables, hrest⟩ := h
  cases o with
  | sql | settle | publishStatusChanged | dateNow => exact ho.elim
  | channelReady =>
    refine .some ⟨?_, htables, hrest⟩
    show Except.ok s.channelReady = Except.ok t.channelReady
    rw [hrest]
  | randomUUID => exact .some ⟨rfl, htables, hrest⟩
  | sendToQueue m =>
    simp only [AppState.exec]
    cases ch.send with
    | accepted | buffered =>
      refine .some ⟨rfl, htables, ?_⟩
      rw [hrest]
      rfl
    | refused | closed => exact .some ⟨rfl, htables, hrest⟩

end Steps

section Calls

variable {s t : AppState} {i : Nat} {u : Uuid} {key key' : Option String}

def newOrder (userId : Uuid) (key : Option String) (now : Nat) : Order where
  userId := userId
  status := .pending
  idempotencyKey := key
  createdAt := now
  updatedAt := now
  processedAt := none

theorem together_insertOrder {x : Tx schema} (hx : s.store.tx i = some x)
    (hfree : ∀ l, s.store.free i l = true) (hkey : truthy key = truthy key')
    (hallow : ∀ id now, (s.store.view i .orders).lookup id = none →
      allow (s.store.view i) .orders id (newOrder u key' now) =
        allow (s.store.view i) .orders id (newOrder u key now)) :
    (insert .orders none (newOrder u key)).Together app i
      (fun a b s t => a.1 = b.1 ∧ InStep i s t) (fun e e' s t => e = e' ∧ InStep i s t)
      (insert .orders none (newOrder u key')) s s := by
  refine together_sql ?_
  intro c
  have hrow : SameButKey (newOrder u key c.now) (newOrder u key' c.now) := by
    simp [SameButKey, newOrder, hkey]
  refine rel_imp (Store.exec_insert_beside hx hfree SameButKey.refl hrow (hallow c.id c.now))
    (both_imp ?_ ?_)
  · intro a b store store' hdone
    exact ⟨hdone.1, hdone.2, rfl⟩
  · intro e e' store store' hfailed
    exact ⟨congrArg Thrown.sql hfailed.1, hfailed.2, rfl⟩

theorem together_findOrder (h : InStep i s t) (o : Uuid) :
    (findOne .orders (fun id _ => id = o)).Together app i
      (fun a b s t => Option.Rel (fun x y => x.1 = y.1 ∧ SameButKey x.2 y.2) a b ∧ InStep i s t)
      (fun e e' s t => e = e' ∧ InStep i s t) (findOne .orders (fun id _ => id = o)) s t := by
  refine Together.bind (together_sql ?_)
  intro c
  refine rel_imp (h.store.exec_find SameButKey.refl o) (both_imp ?_ ?_)
  · intro rows rows' store store' hdone
    exact ⟨hdone.1, hdone.2, by rw [h.rest]⟩
  · intro e e' store store' hfailed
    exact ⟨congrArg Thrown.sql hfailed.1, hfailed.2, by rw [h.rest]⟩

theorem together_findOrderWithItems (h : InStep i s t) (o : Uuid) :
    (findOrderWithItems (fun id _ => id = o)).Together app i
      (fun a b s t => Option.Rel SameOrder a b ∧ InStep i s t)
      (fun e e' s t => e = e' ∧ InStep i s t) (findOrderWithItems (fun id _ => id = o)) s t := by
  refine Together.bind (Together.mono (together_findOrder h o) ?_ (fun _ _ _ _ he => he))
  intro a b s t hab
  obtain ⟨hrel, hstep⟩ := hab
  cases hrel with
  | none => exact ⟨.none, hstep⟩
  | @some a b hab =>
    obtain ⟨id, row⟩ := a
    obtain ⟨id', row'⟩ := b
    obtain ⟨hid, hrow⟩ := hab
    obtain rfl : id = id' := hid
    have hfind := together_aside (p := find .orderItems (fun _ r => r.orderId = id))
      (awaits_find (by simp [AvoidsOrders, Stmt.Avoids])) hstep
    refine Together.bind (Together.mono hfind ?_ (fun _ _ _ _ he => he))
    intro items items' s t hitems
    obtain ⟨rfl, hst⟩ := hitems
    exact ⟨.some ⟨rfl, hrow, rfl⟩, hst⟩

theorem together_commit (h : InStep i s t) :
    commitTransaction.Together app i (fun _ _ s t => SameEffect s t)
      (fun e e' s t => e = e' ∧ t = s) commitTransaction s t := by
  refine together_sql ?_
  intro c
  refine rel_imp (h.store.exec_commit SameButKey.refl) (both_imp ?_ ?_)
  · intro _ _ store store' halike
    exact ⟨halike, by rw [h.rest]⟩
  · intro e e' store store' hfailed
    obtain ⟨rfl, rfl⟩ := hfailed
    exact ⟨rfl, by rw [h.rest]⟩

theorem together_createInTransaction (dto : CreateOrderDto) {x : Tx schema}
    (hx : s.store.tx i = some x) (hfree : ∀ l, s.store.free i l = true)
    (hkey : truthy key = truthy key')
    (hallow : ∀ id now, (s.store.view i .orders).lookup id = none →
      allow (s.store.view i) .orders id (newOrder u key' now) =
        allow (s.store.view i) .orders id (newOrder u key now)) :
    (createInTransaction dto u key).Together app i
      (fun a b s t => SameOrder a b ∧ SameEffect s t)
      (fun e e' s t => e = e' ∧ (t = s ∨ InStep i s t)) (createInTransaction dto u key') s s := by
  refine Together.bind (Together.mono (together_insertOrder hx hfree hkey hallow) ?_
    (fun _ _ _ _ he => he.imp_right .inr))
  intro saved saved' s t hsaved
  obtain ⟨hid, hstep⟩ := hsaved
  rw [← hid]
  have hitems := together_aside (p := createItems saved.1 dto.items)
    (awaits_createItems (by simp [AvoidsOrders, Stmt.Avoids]) (by simp [AvoidsOrders, Stmt.Avoids])
      (by simp [AvoidsOrders, Stmt.Avoids]) (by simp [AvoidsOrders, Stmt.Avoids])
      (by simp [AvoidsOrders, Stmt.Avoids]) (by simp [AvoidsOrders, Stmt.Avoids]) _ _) hstep
  refine Together.bind (Together.mono hitems ?_ (fun _ _ _ _ he => he.imp_right .inr))
  intro _ _ s t hst
  refine Together.bind (Together.mono (together_findOrderWithItems hst.2 saved.1) ?_
    (fun _ _ _ _ he => he.imp_right .inr))
  intro found found' s t hfound
  obtain ⟨hrel, hst⟩ := hfound
  cases hrel with
  | none => exact ⟨rfl, .inr hst⟩
  | some hab =>
    refine Together.bind (Together.mono (together_commit hst) ?_
      (fun _ _ _ _ he => he.imp_right .inl))
    exact fun _ _ _ _ heffect => ⟨hab, heffect⟩

theorem together_createFailed (hkey : truthy key = none) (hkey' : truthy key' = none) (e : Thrown)
    (h : t = s ∨ InStep i s t) :
    (createFailed key e).Together app i (fun _ _ _ _ => False) (fun e e' s t => e = e' ∧ t = s)
      (createFailed key' e) s t := by
  refine Together.bind (together_sql ?_)
  intro c
  have hexec : t.store.exec i c .rollbackTransaction = s.store.exec i c .rollbackTransaction := by
    rcases h with rfl | h
    · rfl
    · exact h.store.exec_rollback
  have hrest : ∀ store : Store schema, { t with store } = { s with store } := by
    intro store
    rcases h with rfl | h
    · rfl
    · rw [h.rest]
  rw [hexec]
  generalize s.store.exec i c .rollbackTransaction = y
  cases y with
  | none => exact .none
  | some y =>
    obtain ⟨r, store⟩ := y
    cases r with
    | error e => exact .some ⟨rfl, hrest store⟩
    | ok a =>
      refine .some ?_
      simp only [Both, findByKey, hkey, hkey']
      split
      · exact ⟨rfl, hrest store⟩
      · exact ⟨rfl, hrest store⟩

theorem together_publishOrderCreated {a b : OrderEntity} (hab : SameOrder a b)
    (h : SameEffect s t) :
    (publishOrderCreated a).Together app i (fun _ _ s t => SameEffect s t)
      (fun e e' s t => e = e' ∧ SameEffect s t) (publishOrderCreated b) s t := by
  have hdate : a.row.createdAt = b.row.createdAt := hab.row.createdAt
  have hsame : publishOrderCreated b = publishOrderCreated a := by
    simp only [publishOrderCreated, hab.id, hdate]
  rw [hsame]
  exact Together.mono (together_same (fun _ _ _ _ hst ho => hst.exec ho)
    (awaits_publishOrderCreated trivial trivial (fun _ => trivial) a) h) (fun _ _ _ _ h => h.2)
    (fun _ _ _ _ h => h)

theorem together_findUser (ha : s.store.isAborted i = false) (u : Uuid) :
    (findOne .users (fun j _ => j = u)).Together app i
      (fun a b s' t' => b = a ∧ s' = s ∧ t' = s ∧
        (a ≠ none → ((s.store.view i .users).lookup u).isSome = true))
      (fun e e' s' t' => e = e' ∧ t' = s') (findOne .users (fun j _ => j = u)) s s := by
  refine Together.bind (together_sql ?_)
  intro c
  by_cases hf : c.fault = true
  · simp only [Store.exec, hf, if_true]
    exact .some ⟨rfl, rfl⟩
  · rw [Store.exec_select_view (by simpa using hf) ha]
    refine .some ⟨rfl, rfl, rfl, ?_⟩
    intro hsome
    rw [head_rows_id] at hsome
    simpa [Option.isSome_iff_ne_none] using hsome

theorem together_startTransaction (hs : s.store.Coherent) (htx : ∀ j, s.store.tx j = none) :
    startTransaction.Together app i
      (fun _ _ s' t' => t' = s' ∧ s'.store.Solo i s.store.tables [])
      (fun e e' s' t' => e = e' ∧ s' = s ∧ t' = s) startTransaction s s := by
  refine together_sql ?_
  intro c
  by_cases hf : c.fault = true
  · simp only [Store.exec, hf, if_true]
    exact .some ⟨rfl, rfl, rfl⟩
  · obtain ⟨store, he, hsolo⟩ := Store.exec_start_solo hs htx (i := i) (c := c) (by simpa using hf)
    rw [he]
    exact .some ⟨rfl, hsolo⟩

/-- A committed order has the empty key, the table of the orders has room for
another one, and the call gets as far as inserting it. -/
structure Collides (s : AppState) (dto : CreateOrderDto) : Prop where
  taken : ∃ o row, (s.store.tables .orders).lookup o = some row ∧ row.idempotencyKey = some ""
  room : ∃ o, (s.store.tables .orders).lookup o = none
  items : dto.items ≠ []
  user : ∃ u, uuidIn dto.userId = some u ∧ ((s.store.tables .users).lookup u).isSome = true

theorem allow_emptyKey {T : Database} (hT : ∀ o row, (T .orders).lookup o = some row →
      row.idempotencyKey ≠ some "") (u o : Uuid) (now : Nat) :
    allow T .orders o (newOrder u none now) = allow T .orders o (newOrder u (some "") now) := by
  have hfree : keyTaken (S := schema) T .orders o (newOrder u (some "") now) = false := by
    refine List.any_eq_false.mpr ?_
    intro e he htaken
    refine hT e.1 e.2 (AList.mem_lookup_iff.mpr he) ?_
    have hkeys : e.1 ≠ o ∧ e.2.idempotencyKey = some "" := by
      simpa [uniqueKeys, newOrder] using htaken
    exact hkeys.2
  have hnone : keyTaken (S := schema) T .orders o (newOrder u none now) = false := by
    simp [keyTaken, uniqueKeys, newOrder]
  rw [allow, allow, hfree, hnone]
  rfl

theorem together_reject {α : Type} (e : SqlError) {Q : α → α → AppState → AppState → Prop} :
    (reject e : App α).Together app i Q (fun e e' s t => e = e' ∧ t = s) (reject e) s s := by
  have hsql := together_refl (M := app) (i := i) (sql (.stmt (.malformed e))) s
  refine Together.bind (Together.mono hsql ?_ ?_)
  · exact fun a => nomatch (show Empty from a)
  · exact fun _ _ _ _ he => he.imp_right Eq.symm

theorem together_createOrder (hs : s.store.Coherent) (htx : ∀ j, s.store.tx j = none)
    {dto dto' : CreateOrderDto} (hitems : dto'.items = dto.items) (u : Uuid)
    (hfree : (∃ o, (s.store.tables .orders).lookup o = none) →
      ∀ o row, (s.store.tables .orders).lookup o = some row → row.idempotencyKey ≠ some "") :
    (createOrder dto u (some "")).Together app i
      (fun a b s t => (SameOrder a.order b.order ∧ a.wasDuplicate = b.wasDuplicate) ∧
        SameEffect s t)
      (fun e e' s t => e = e' ∧ SameEffect s t) (createOrder dto' u none) s s := by
  have hbody : createInTransaction dto' u none = createInTransaction dto u none := by
    simp only [createInTransaction, hitems]
  simp only [createOrder, hbody]
  refine Together.bind (Together.mono (together_startTransaction hs htx) ?_ ?_)
  · intro _ _ s' t' hstart
    obtain ⟨rfl, hsolo⟩ := hstart
    have hview : t'.store.view i = s.store.tables := hsolo.view
    refine Together.bind (Together.tryCatch (Together.bind (Together.mono
      (together_createInTransaction dto hsolo.tx hsolo.free rfl ?_) ?_ ?_)))
    · intro id now hid
      rw [hview] at hid ⊢
      exact allow_emptyKey (hfree ⟨id, hid⟩) u id now
    · intro a b s t hab
      refine Together.bind (Together.mono (together_publishOrderCreated hab.1 hab.2) ?_
        (fun _ _ _ _ he => he))
      exact fun _ _ _ _ heffect => ⟨⟨hab.1, rfl⟩, heffect⟩
    · intro e e' s t he
      obtain ⟨rfl, hst⟩ := he
      refine Together.bind (Together.mono (together_createFailed rfl rfl e hst) ?_ ?_)
      · exact fun _ _ _ _ h => h.elim
      · intro e e' s t he
        obtain ⟨rfl, rfl⟩ := he
        exact ⟨rfl, .refl _⟩
  · intro e e' s' t' he
    obtain ⟨rfl, rfl, rfl⟩ := he
    exact ⟨rfl, .refl _⟩

/-- Side by side, the call with the empty key and the call without a key do the
same, if the empty key does not collide. -/
theorem together_create (hs : s.store.Coherent) (htx : ∀ j, s.store.tx j = none)
    {dto : CreateOrderDto} {idempotencyKey : Option String}
    (hkey : effectiveKey dto idempotencyKey = some "") (hnot : ¬ Collides s dto) :
    (create dto idempotencyKey).Together app i
      (fun a b s t => (SameOrder a.order b.order ∧ a.wasDuplicate = b.wasDuplicate) ∧
        SameEffect s t)
      (fun e e' s t => e = e' ∧ SameEffect s t)
      (create { dto with idempotencyKey := none } none) s s := by
  have ha : s.store.isAborted i = false := by simp [Store.isAborted, htx]
  have hnone : effectiveKey { dto with idempotencyKey := none } none = none := rfl
  simp only [create, hkey, hnone, findByKey, truthy, Option.filter_none, pure_eq, ret_bind]
  show Together app i _ _ (if dto.items.isEmpty then _ else _) _ s s
  split
  · exact ⟨rfl, .refl s⟩
  · next hitems =>
    have hne : dto.items ≠ [] := by simpa using hitems
    unfold findOneById
    cases hu : uuidIn dto.userId with
    | none =>
      refine Together.bind (Together.mono (together_reject .invalidText) (fun _ _ _ _ h => h) ?_)
      intro e e' s t he
      obtain ⟨rfl, rfl⟩ := he
      exact ⟨rfl, .refl _⟩
    | some u =>
      refine Together.bind (Together.mono (together_findUser ha u) ?_ ?_)
      · intro a b s' t' hab
        obtain ⟨rfl, rfl, rfl, hfound⟩ := hab
        cases b with
        | none => exact ⟨rfl, .refl _⟩
        | some user =>
          have husers := Store.view_none (htx i)
          refine together_createOrder hs htx rfl user.1 ?_
          intro hroom o row hrow heq
          refine hnot ⟨⟨o, row, hrow, heq⟩, hroom, hne, u, hu, ?_⟩
          rw [← husers]
          exact hfound (by simp)
      · intro e e' s t he
        obtain ⟨rfl, rfl⟩ := he
        exact ⟨rfl, .refl t⟩

end Calls

section Unique

variable {s : AppState} {i : Nat}

theorem columnTypes_ne (t : Table) (r : t.Row) : columnTypes t r ≠ some .uniqueViolation := by
  have hvarchar : ∀ n x, varchar n x ≠ some .uniqueViolation := by
    intro n x
    unfold varchar
    split <;> simp
  have hint : ∀ x, int4 x ≠ some .uniqueViolation := by
    intro x
    unfold int4
    split <;> simp
  have hnumeric : ∀ x, numeric12 x ≠ some .uniqueViolation := by
    intro x
    unfold numeric12
    split <;> simp
  have hbind : ∀ n (x : Option String), x.bind (varchar n) ≠ some .uniqueViolation := by
    intro n x
    cases x with
    | none => simp
    | some x => exact hvarchar n x
  cases t <;> simp [columnTypes, hvarchar, hint, hnumeric, hbind]

theorem allow_ne_unique {T : Database} {t : Table} {id : Uuid} {r : t.Row}
    (hfree : keyTaken (S := schema) T t id r = false) {e : SqlError}
    (h : allow (S := schema) T t id r = .error e) : e ≠ .uniqueViolation := by
  rintro rfl
  unfold allow at h
  rw [hfree] at h
  split at h
  · next hcheck =>
    cases h
    exact columnTypes_ne t r hcheck
  · simp only [Bool.false_eq_true, if_false] at h
    split at h <;> cases h

def KeepsKeys (V : Database) : Stmt schema → Prop
  | .select _ _ | .selectForUpdate _ _ => True
  | .insert t id row => id = none ∧ ∀ id now, keyTaken (S := schema) V t id (row now) = false
  | .update t id set => ∀ old now, (V t).lookup id = some old →
      keyTaken (S := schema) V t id (set now old) = false
  | .delete _ _ => False
  | .malformed e => e ≠ .uniqueViolation

theorem exec_ne_unique {q : Stmt schema} (hq : KeepsKeys (s.store.view i) q)
    {c : Sql.Choice schema} {e : SqlError} {store : Store schema}
    (h : s.store.exec i c (.stmt q) = some (.error e, store)) : e ≠ .uniqueViolation := by
  cases Store.exec_step h with
  | fault | aborted => simp
  | refused q p e ha hp hl hr =>
    cases q with
    | select t cond =>
      obtain rfl := Option.some.inj hp
      cases hr
    | selectForUpdate t id =>
      simp only [Stmt.plan] at hp
      split at hp <;> obtain rfl := Option.some.inj hp <;> cases hr
    | insert t id row =>
      obtain ⟨rfl, hfree⟩ := hq
      simp only [Stmt.plan] at hp
      split at hp
      · cases hp
      · obtain rfl := Option.some.inj hp
        exact allow_ne_unique (hfree _ _) (map_error hr)
    | update t id set =>
      simp only [Stmt.plan] at hp
      split at hp
      · obtain rfl := Option.some.inj hp
        cases hr
      · next old hold =>
        obtain rfl := Option.some.inj hp
        exact allow_ne_unique (hq old c.now hold) (map_error hr)
    | delete t id => exact hq.elim
    | malformed e =>
      obtain rfl := Option.some.inj hp
      cases hr
      exact hq

end Unique

/-! A call without a key, alone, in any environment. -/

/-- The error that a call passes on is not that of a unique index. -/
def Plain (e : Thrown) (_ : AppState) : Prop := isUniqueViolation e = false

section Plain

variable {s : AppState} {i : Nat}

theorem plain_sql {q : Stmt schema} (hs : s.store.Coherent) (hq : KeepsKeys (s.store.view i) q)
    {Q : q.Ans → AppState → Prop}
    (hQ : ∀ a store ls ws c, q.Success (s.store.view i) c ls a ws → store.Coherent →
      store.view i = (s.store.view i).replay ws → Q a { s with store }) :
    (sql (.stmt q)).wp (alone app i) Q Plain s := by
  refine (wp_await _ _ _ _).mpr ⟨trivial, ?_, ?_⟩
  · intro a s' hnext
    obtain ⟨ch, he⟩ := hnext
    obtain ⟨r, store, hexec, hr, rfl⟩ := AppState.exec_sql he
    cases r with
    | error e => cases hr
    | ok b =>
      obtain rfl := Except.ok.inj hr
      have hcoherent := hs.exec hexec
      cases Store.exec_step hexec with
      | done q ls a ws ha hq hl =>
        exact hQ _ _ ls ws ch.sql hq hcoherent (Store.perform_view _ _ _ _)
  · intro e s' hnext
    obtain ⟨ch, he⟩ := hnext
    obtain ⟨r, store, hexec, hr, rfl⟩ := AppState.exec_sql he
    cases r with
    | ok b => cases hr
    | error e' =>
      obtain rfl := Except.error.inj hr
      have hne := exec_ne_unique hq hexec
      cases e' <;> first | rfl | exact absurd rfl hne

theorem plain_findOne (hs : s.store.Coherent) (t : Table) (id : Uuid)
    {Q : Option (Uuid × t.Row) → AppState → Prop}
    (hQ : ∀ store : Store schema, store.Coherent → store.view i = s.store.view i →
      Q (((s.store.view i t).lookup id).map (fun r => (id, r))) { s with store }) :
    (findOne t (fun j _ => j = id)).wp (alone app i) Q Plain s := by
  refine (wp_bind _ _ _ _ _).mpr (plain_sql (q := .select t _) hs trivial ?_)
  intro rows store ls ws c hsuccess hcoherent hview
  cases hsuccess with
  | select =>
    have hdone := hQ store hcoherent hview
    rw [← head_rows_id] at hdone
    exact hdone

theorem plain_reject (hs : s.store.Coherent) {α : Type} {e : SqlError} (he : e ≠ .uniqueViolation)
    {Q : α → AppState → Prop} : (reject e : App α).wp (alone app i) Q Plain s :=
  (wp_bind _ _ _ _ _).mpr (plain_sql (q := .malformed e) hs he (fun a => nomatch (show Empty from a)))

theorem plain_managerSave (hs : s.store.Coherent) {p : Uuid} {r r' : Product}
    (hr : (s.store.view i .products).lookup p = some r) (hsku : r'.sku = r.sku) :
    (managerSave .products p r').wp (alone app i) (fun _ s' => s'.store.Coherent) Plain s := by
  refine (wp_bind _ _ _ _ _).mpr (plain_findOne hs .products p ?_)
  intro store hcoherent hview
  rw [hr]
  simp only [Option.map_some]
  split
  · exact hcoherent
  · refine (wp_bind _ _ _ _ _).mpr (plain_sql hcoherent ?_ ?_)
    · intro old now hold
      refine keyTaken_product (hcoherent.distinctView i) hold ?_
      simp [saveColumns, column, hsku]
    · exact fun _ _ _ _ _ _ h _ => h

theorem plain_insert (hs : s.store.Coherent) {t : Table} {row : Nat → t.Row}
    (hkeys : ∀ now, uniqueKeys t (row now) = []) :
    (insert t none row).wp (alone app i) (fun _ s' => s'.store.Coherent) Plain s := by
  refine plain_sql (q := .insert t none row) hs ⟨rfl, ?_⟩ (fun _ _ _ _ _ _ h _ => h)
  intro id now
  simp [keyTaken, hkeys]

theorem plain_createItem (hs : s.store.Coherent) (o : Uuid) (item : CreateOrderItem) :
    (createItem o item).wp (alone app i) (fun _ s' => s'.store.Coherent) Plain s := by
  refine (wp_bind _ _ _ _ _).mpr ?_
  unfold findOneForUpdate
  cases hp : uuidIn item.productId with
  | none => exact plain_reject hs (by simp)
  | some p =>
    refine (wp_bind _ _ _ _ _).mpr (plain_sql (q := .selectForUpdate .products p) hs trivial ?_)
    intro row store ls ws c hsuccess hcoherent hview
    cases hsuccess with
    | lockMissing => rfl
    | lock _ _ r hr =>
      have hrow : (store.view i .products).lookup p = some r := by
        rw [hview]
        exact hr
      simp only [Option.map_some, pure_eq, wp_ret]
      split
      · rfl
      · split
        · rfl
        · refine (wp_bind _ _ _ _ _).mpr ?_
          refine wp_mono (plain_managerSave hcoherent hrow rfl) ?_ (fun _ _ h => h)
          intro _ s' hs'
          exact plain_insert hs' (fun _ => rfl)

theorem plain_createItems (hs : s.store.Coherent) (o : Uuid) (items : List CreateOrderItem) :
    (createItems o items).wp (alone app i) (fun _ s' => s'.store.Coherent) Plain s := by
  induction items generalizing s with
  | nil => exact hs
  | cons item items ih =>
    refine (wp_bind _ _ _ _ _).mpr ?_
    refine wp_mono (plain_createItem hs o item) ?_ (fun _ _ h => h)
    intro savedItem s' hs'
    refine (wp_bind _ _ _ _ _).mpr (wp_mono (ih hs') ?_ (fun _ _ h => h))
    exact fun _ _ h => h

theorem plain_op {o : Sql.Op schema} (ho : ∀ q, o ≠ .stmt q) :
    (sql o).wp (alone app i) (fun _ s' => s.store.Coherent → s'.store.Coherent) Plain s := by
  refine (wp_await _ _ _ _).mpr ⟨trivial, ?_, ?_⟩
  · intro a s' hnext hs
    obtain ⟨ch, he⟩ := hnext
    obtain ⟨r, store, hexec, hr, rfl⟩ := AppState.exec_sql he
    exact hs.exec hexec
  intro e s' hnext
  obtain ⟨ch, he⟩ := hnext
  obtain ⟨r, store, hexec, hr, rfl⟩ := AppState.exec_sql he
  cases r with
  | ok b => cases hr
  | error e' =>
    obtain rfl := Except.error.inj hr
    cases Store.exec_step hexec with
    | startFault | commitFault | rollbackFault => rfl
    | fault q | aborted q | refused q => exact absurd rfl (ho q)

theorem plain_createInTransaction (hs : s.store.Coherent) (dto : CreateOrderDto) (u : Uuid) :
    (createInTransaction dto u none).wp (alone app i) (fun _ _ => True) Plain s := by
  refine (wp_bind _ _ _ _ _).mpr (wp_mono (plain_insert hs (fun _ => rfl)) ?_ (fun _ _ h => h))
  intro saved s' hcoherent
  refine (wp_bind _ _ _ _ _).mpr ?_
  refine wp_mono (plain_createItems hcoherent saved.1 dto.items) ?_ (fun _ _ h => h)
  intro _ s₁ hs₁
  refine (wp_bind _ _ _ _ _).mpr ((wp_bind _ _ _ _ _).mpr (plain_findOne hs₁ .orders saved.1 ?_))
  intro store₂ hs₂ _
  cases (s₁.store.view i .orders).lookup saved.1 with
  | none => rfl
  | some row =>
    refine (wp_bind _ _ _ _ _).mpr (plain_sql (q := .select .orderItems _) hs₂ trivial ?_)
    intro _ _ _ _ _ _ _ _
    refine (wp_bind _ _ _ _ _).mpr (wp_mono (plain_op (by simp)) ?_ (fun _ _ h => h))
    exact fun _ _ _ => trivial

theorem plain_publishOrderCreated (order : OrderEntity) :
    (publishOrderCreated order).wp (alone app i) (fun _ _ => True) Plain s := by
  refine (wp_bind _ _ _ _ _).mpr ((wp_await _ _ _ _).mpr ⟨trivial, ?_, ?_⟩)
  · intro messageId s₁ _
    split
    · rfl
    · refine (wp_bind _ _ _ _ _).mpr ((wp_bind _ _ _ _ _).mpr ((wp_await _ _ _ _).mpr
        ⟨trivial, ?_, ?_⟩))
      · intro ready s₂ _
        split
        · refine (wp_await _ _ _ _).mpr ⟨trivial, fun _ _ _ => trivial, ?_⟩
          intro e s₃ hnext
          obtain ⟨ch, he⟩ := hnext
          simp only [AppState.exec] at he
          split at he <;> cases he
          rfl
        · trivial
      · intro e s₂ hnext
        obtain ⟨ch, he⟩ := hnext
        cases he
  · intro e s₁ hnext
    obtain ⟨ch, he⟩ := hnext
    cases he

/-- A call without a key that runs alone never fails on a unique index. -/
theorem plain_create (hs : s.store.Coherent) {dto : CreateOrderDto} {idempotencyKey : Option String}
    (hkey : effectiveKey dto idempotencyKey = none) :
    (create dto idempotencyKey).wp (alone app i) (fun _ _ => True) Plain s := by
  simp only [create, hkey, findByKey, truthy, Option.filter_none, pure_eq, ret_bind]
  split
  · rfl
  · refine (wp_bind _ _ _ _ _).mpr ?_
    have huser : (findOneById .users dto.userId).wp (alone app i)
        (fun _ s' => s'.store.Coherent) Plain s := by
      unfold findOneById
      split
      · exact plain_findOne hs .users _ (fun _ h _ => h)
      · exact plain_reject hs (by simp)
    refine wp_mono huser ?_ (fun _ _ h => h)
    intro user s₁ hs₁
    cases user with
    | none => rfl
    | some user =>
      refine (wp_bind _ _ _ _ _).mpr (wp_mono (plain_op (by simp)) ?_ (fun _ _ h => h))
      intro _ s₂ hs₂
      refine (wp_bind _ _ _ _ _).mpr ((wp_tryCatch _ _ _ _ _).mpr ((wp_bind _ _ _ _ _).mpr ?_))
      refine wp_mono (plain_createInTransaction (hs₂ hs₁) dto user.1) ?_ ?_
      · intro order s₃ _
        refine (wp_bind _ _ _ _ _).mpr (wp_mono (plain_publishOrderCreated order) ?_
          (fun _ _ h => h))
        exact fun _ _ _ => trivial
      · intro e s₃ he
        have he : isUniqueViolation e = false := he
        refine (wp_bind _ _ _ _ _).mpr ((wp_bind _ _ _ _ _).mpr (wp_mono (plain_op (by simp)) ?_
          (fun _ _ h => h)))
        intro _ s₄ _
        rw [he]
        exact he

end Plain

section Collision

variable {s : AppState} {i : Nat} {dto : CreateOrderDto} {idempotencyKey : Option String}

theorem allow_taken {T : Database} {o id : Uuid} {row : Order}
    (hrow : (T .orders).lookup o = some row) (hkey : row.idempotencyKey = some "")
    (hid : (T .orders).lookup id = none) (u : Uuid) (now : Nat) :
    allow T .orders id (newOrder u (some "") now) = .error .uniqueViolation := by
  have hne : o ≠ id := by
    rintro rfl
    rw [hrow] at hid
    cases hid
  have htaken : keyTaken (S := schema) T .orders id (newOrder u (some "") now) = true := by
    refine List.any_eq_true.mpr ⟨⟨o, row⟩, AList.mem_lookup_iff.mp hrow, ?_⟩
    simp [uniqueKeys, newOrder, hkey, hne]
  rw [allow, htaken]
  rfl

theorem create_collides (hs : s.store.Coherent) (htx : ∀ j, s.store.tx j = none)
    (hkey : effectiveKey dto idempotencyKey = some "") (h : Collides s dto) :
    ∃ chs s', (create dto idempotencyKey).eval app i s chs =
      some (.error (.sql .uniqueViolation), s') := by
  obtain ⟨⟨o, row, hrow, hempty⟩, ⟨id, hid⟩, hne, u, hu, huser⟩ := h
  obtain ⟨user, hfound⟩ := Option.isSome_iff_exists.mp huser
  have hitems : dto.items.isEmpty = false := by simpa using hne
  have ha : s.store.isAborted i = false := by simp [Store.isAborted, htx]
  have hfind : findByKey (some "") = ret none := rfl
  have hwp : (create dto idempotencyKey).wp (unblocked app (fun _ _ c => c = tick id) i)
      (fun _ _ => False) (fun e _ => e = .sql .uniqueViolation) s := by
    simp only [create, hkey, hfind, ret_bind, hitems, findOneById, hu]
    refine (wp_bind _ _ _ _ _).mpr (serve_findOne ?_ ha .users u ?_)
    · rintro _ _ rfl
      rfl
    rw [Store.view_none (htx i), hfound]
    refine (wp_bind _ _ _ _ _).mpr (serve_sql ?_)
    rintro _ rfl
    obtain ⟨store, he, hsolo⟩ := Store.exec_start_solo (i := i) (c := (tick id).sql) hs htx rfl
    refine ⟨_, store, he, (wp_bind _ _ _ _ _).mpr ((wp_tryCatch _ _ _ _ _).mpr ?_)⟩
    refine (wp_bind _ _ _ _ _).mpr ((wp_bind _ _ _ _ _).mpr (serve_sql ?_))
    rintro _ rfl
    have hrefused := allow_taken hrow hempty hid u 5
    refine ⟨_, _, hsolo.exec_insert_refused (g := none) (c := (tick id).sql) rfl hid hrefused, ?_⟩
    refine (wp_bind _ _ _ _ _).mpr ((wp_bind _ _ _ _ _).mpr (serve_sql ?_))
    rintro _ rfl
    exact ⟨.ok (), _, rfl, rfl⟩
  have henv : ∀ (_ : AppState) (_ : AppOp), ∃ c, c = tick id := fun _ _ => ⟨_, rfl⟩
  obtain ⟨chs, r, s', hrun, hout⟩ := unblocked_run henv hwp
  cases r with
  | ok a => exact hout.elim
  | error e =>
    obtain rfl : e = .sql .uniqueViolation := hout
    exact ⟨chs, s', hrun⟩

end Collision

/-- A state that calls of `create`, in any number and interleaving, make of a
quiet one, when none of them is in its transaction. -/
def BetweenCreates (s : AppState) : Prop :=
  ∃ s₀ calls es c, s₀.Quiet ∧ (creation s₀ calls).run es = some c ∧ c.shared = s ∧
    ∀ j, s.store.tx j = none

theorem BetweenCreates.coherent {s : AppState} (h : BetweenCreates s) : s.store.Coherent := by
  obtain ⟨s₀, calls, es, c, hs₀, hrun, rfl, _⟩ := h
  obtain ⟨γ, hγ⟩ := creation_run hs₀ hrun
  exact hγ.inv.coherent

/-- Alone on any choices of the environment, the call does what the same call
without a key does, and it never fails on a unique index. -/
structure EmptyKeyIsNone (s : AppState) (dto : CreateOrderDto) (idempotencyKey : Option String) :
    Prop where
  same : ∀ i chs, Option.Rel SameCall ((create dto idempotencyKey).eval app i s chs)
    ((create { dto with idempotencyKey := none } none).eval app i s chs)
  unique : ∀ i chs e s', (create dto idempotencyKey).eval app i s chs = some (.error e, s') →
    isUniqueViolation e = false

/-- A call with the empty key is a call without a key, exactly if the empty key
does not collide with that of an earlier order. -/
theorem emptyKey_isNone_iff {s : AppState} (hs : BetweenCreates s) {dto : CreateOrderDto}
    {idempotencyKey : Option String} (hkey : effectiveKey dto idempotencyKey = some "") :
    EmptyKeyIsNone s dto idempotencyKey ↔ ¬ Collides s dto := by
  have hcoherent := hs.coherent
  obtain ⟨_, _, _, _, _, _, _, htx⟩ := hs
  constructor
  · intro h hcollides
    obtain ⟨chs, s', hrun⟩ := create_collides (i := 0) hcoherent htx hkey hcollides
    have hunique := h.unique 0 chs _ s' hrun
    cases hunique
  · intro hnot
    have hsame : ∀ i chs, Option.Rel SameCall ((create dto idempotencyKey).eval app i s chs)
        ((create { dto with idempotencyKey := none } none).eval app i s chs) :=
      fun i chs => (together_create hcoherent htx hkey hnot).eval chs
    refine ⟨hsame, ?_⟩
    intro i chs e s' hrun
    have hrel := hsame i chs
    rw [hrun] at hrel
    cases hrun' : (create { dto with idempotencyKey := none } none).eval app i s chs with
    | none =>
      rw [hrun'] at hrel
      cases hrel
    | some y =>
      obtain ⟨r', t'⟩ := y
      rw [hrun'] at hrel
      cases hrel with
      | some hxy =>
        cases r' with
        | ok b => exact hxy.elim
        | error e' =>
          obtain rfl : e = e' := hxy.1
          exact eval_outcome (plain_create hcoherent rfl) hrun'

def penOrdering : List (Nat × AppChoice) := List.replicate 13 (0, tick 10)

theorem betweenCreates_penOrdering {key : Option String} {c : Config app CreateResult}
    (h : (creation (serving (penShop 5)) [penOrder key 1]).run penOrdering = some c)
    (htx : (c.shared.store.tx 0).isNone = true) : BetweenCreates c.shared := by
  refine ⟨_, _, _, c, serving_quiet (penShop_distinct 5), h, rfl, ?_⟩
  intro j
  by_cases hj : j = 0
  · subst hj
    simpa using htx
  · rw [run_tx_other h]
    · rfl
    · intro e he
      obtain rfl := List.eq_of_mem_replicate he
      exact hj

theorem emptyKey_isNone_iff_pen :
    ∃ c, (creation (serving (penShop 5)) [penOrder (some "") 1]).run penOrdering = some c ∧
      (EmptyKeyIsNone c.shared (penOrder none 2).dto (some "") ↔
        ¬ Collides c.shared (penOrder none 2).dto) := by
  have hrun : ((creation (serving (penShop 5)) [penOrder (some "") 1]).run penOrdering).map
      (fun c => (c.shared.store.tx 0).isNone) = some true := by decide +kernel
  obtain ⟨c, hc, htx⟩ := Option.map_eq_some_iff.mp hrun
  exact ⟨c, hc, emptyKey_isNone_iff (betweenCreates_penOrdering hc htx) rfl⟩

def onUniqueIndex : Except Thrown CreateResult → Bool
  | .ok _ => false
  | .error e => isUniqueViolation e

/-- The second order with the empty key fails on the unique index. -/
theorem emptyKey_isNone_twice :
    ¬ ∀ s, BetweenCreates s → ∀ (dto : CreateOrderDto) (idempotencyKey : Option String),
      effectiveKey dto idempotencyKey = some "" → dto.items ≠ [] →
      (∀ item ∈ dto.items, 1 ≤ item.quantity) → EmptyKeyIsNone s dto idempotencyKey := by
  intro h
  have hrun : ((creation (serving (penShop 5)) [penOrder (some "") 1]).run penOrdering).bind
      (fun c => ((create (penOrder none 2).dto (some "")).eval app 1 c.shared
        (List.replicate 4 (tick 20))).map (fun d => ((c.shared.store.tx 0).isNone,
          onUniqueIndex d.1))) = some (true, true) := by decide +kernel
  obtain ⟨c, hc, hrest⟩ := Option.bind_eq_some_iff.mp hrun
  obtain ⟨⟨r, s'⟩, hd, hr⟩ := Option.map_eq_some_iff.mp hrest
  obtain ⟨htx, hunique⟩ := Prod.mk.inj hr
  have hnone := h _ (betweenCreates_penOrdering hc htx) (penOrder none 2).dto (some "") rfl
    (by simp [penOrder]) (by simp [penOrder])
  cases r with
  | ok a => cases hunique
  | error e =>
    have hplain := hnone.unique 1 _ e s' hd
    have hraised : isUniqueViolation e = true := hunique
    rw [hplain] at hraised
    cases hraised

end Ecomm
