import Ecomm.Lib.Constant
import Ecomm.Lib.ForeignKeys
import Ecomm.ProductsService
import Ecomm.Awaited
import Ecomm.Sequential
import Ecomm.Redelivery

/-! References between users, orders, order items and products, under the
foreign keys that the migrations create. -/

namespace Ecomm

open Concurrent Sql

section Cascade

variable {T : Database}

theorem mem_deleteWhere {t : Table} {cond : t.Row → Bool} {j : Uuid} {r : t.Row}
    (hr : (T t).lookup j = some r) (hc : cond r = true) :
    (⟨t, j, none⟩ : Σ t : Table, Uuid × Option t.Row) ∈ deleteWhere T t cond := by
  refine List.mem_map.mpr ⟨⟨j, r⟩, List.mem_filter.mpr ⟨?_, hc⟩, rfl⟩
  exact AList.mem_lookup_iff.mp hr

theorem deleteWhere_cases {t : Table} {cond : t.Row → Bool}
    {w : Σ t : Table, Uuid × Option t.Row} (hw : w ∈ deleteWhere T t cond) :
    w.1 = t ∧ ∃ r, (⟨w.2.1, r⟩ : Σ _ : Uuid, t.Row) ∈ (T t).entries ∧ cond r = true := by
  obtain ⟨e, he, rfl⟩ := List.mem_map.mp hw
  obtain ⟨hmem, hc⟩ := List.mem_filter.mp he
  exact ⟨rfl, e.2, hmem, hc⟩

theorem ofOrders_cases {orders : List Uuid} {w : Σ t : Table, Uuid × Option t.Row}
    (hw : w ∈ ofOrders T orders) : w.1 = .orderItems ∨ w.1 = .processedMessages := by
  rcases List.mem_append.mp hw with hw | hw
  · exact .inl (deleteWhere_cases hw).1
  · exact .inr (deleteWhere_cases hw).1

theorem cascade_cases {t : Table} {id : Uuid} {w : Σ t : Table, Uuid × Option t.Row}
    (hw : w ∈ cascade T t id) : w.1 = .orderItems ∨ w.1 = .processedMessages ∨
      (t = .users ∧ w.1 = .orders ∧ w.2.1 ∈ ordersOf T id) := by
  cases t with
  | users =>
    rcases List.mem_append.mp hw with hw | hw
    · rcases ofOrders_cases hw with h | h
      · exact .inl h
      · exact .inr (.inl h)
    · obtain ⟨htable, r, hmem, hc⟩ := deleteWhere_cases hw
      refine .inr (.inr ⟨rfl, htable, ?_⟩)
      exact List.mem_map.mpr ⟨⟨w.2.1, r⟩, List.mem_filter.mpr ⟨hmem, by simpa using hc⟩, rfl⟩
  | orders =>
    rcases ofOrders_cases hw with h | h
    · exact .inl h
    · exact .inr (.inl h)
  | products | orderItems | processedMessages => cases hw

theorem deletion_cases {t u : Table} {id j : Uuid} {ws : List (Write schema)}
    (hws : deletion (S := schema) T t id = some ws) (h : ∃ w ∈ ws, w.at u j) :
    (u = t ∧ j = id) ∨ u = .orderItems ∨ u = .processedMessages ∨
      (t = .users ∧ u = .orders ∧ j ∈ ordersOf T id) := by
  obtain rfl := Option.some.inj hws
  obtain ⟨w, hw, htable, hid⟩ := h
  rcases List.mem_append.mp hw with hw | hw
  · obtain ⟨v, hv, rfl⟩ := List.mem_map.mp hw
    have htable : v.1 = u := htable
    have hid : v.2.1 = j := hid
    rw [← htable, ← hid]
    exact .inr (cascade_cases hv)
  · obtain rfl := List.mem_singleton.mp hw
    exact .inl ⟨htable.symm, hid.symm⟩

theorem deletion_cascade {t u : Table} {id j : Uuid} {ws : List (Write schema)}
    (hws : deletion (S := schema) T t id = some ws)
    (h : (⟨u, j, none⟩ : Σ t : Table, Uuid × Option t.Row) ∈ cascade T t id) :
    ∃ w ∈ ws, w.at u j := by
  obtain rfl := Option.some.inj hws
  exact ⟨_, List.mem_append_left _ (List.mem_map_of_mem h), rfl, rfl⟩

theorem deletion_rows {t : Table} {id : Uuid} {ws : List (Write schema)}
    (hws : deletion (S := schema) T t id = some ws) : ∀ w ∈ ws, w.row = none := by
  obtain rfl := Option.some.inj hws
  intro w hw
  rcases List.mem_append.mp hw with hw | hw
  · obtain ⟨v, hv, rfl⟩ := List.mem_map.mp hw
    exact cascade_none T t id v hv
  · obtain rfl := List.mem_singleton.mp hw
    rfl

theorem ofOrders_deleted {t u : Table} {id o j : Uuid} {ws : List (Write schema)}
    (hws : deletion (S := schema) T t id = some ws)
    (hrow : ∀ orders, o ∈ orders →
      (⟨u, j, none⟩ : Σ t : Table, Uuid × Option t.Row) ∈ ofOrders T orders)
    (ho : ∃ w ∈ ws, w.at .orders o) : ∃ w ∈ ws, w.at u j := by
  refine deletion_cascade hws ?_
  rcases deletion_cases hws ho with ⟨ht, rfl⟩ | h | h | ⟨rfl, _, hmem⟩
  · subst ht
    exact hrow [o] (by simp)
  · cases h
  · cases h
  · exact List.mem_append_left _ (hrow _ hmem)

/-- The referential actions of the migrations leave no reference behind. -/
theorem cascades_schema : Cascades schema := by
  intro T t id ws hws
  refine ⟨deletion_rows hws, ?_⟩
  intro u j r hr f hf hdeleted
  cases u with
  | users | products => cases hf
  | orders =>
    obtain rfl := List.mem_singleton.mp hf
    refine deletion_cascade hws ?_
    rcases deletion_cases hws hdeleted with ⟨ht, hid⟩ | h | h | ⟨_, h, _⟩
    · subst ht
      exact List.mem_append_right _ (mem_deleteWhere (t := .orders) hr (by simpa using hid))
    · cases h
    · cases h
    · cases h
  | orderItems =>
    obtain rfl := List.mem_singleton.mp hf
    refine ofOrders_deleted hws ?_ hdeleted
    intro orders ho
    exact List.mem_append_left _ (mem_deleteWhere (t := .orderItems) hr (by simpa using ho))
  | processedMessages =>
    obtain rfl := List.mem_singleton.mp hf
    refine ofOrders_deleted hws ?_ hdeleted
    intro orders ho
    exact List.mem_append_right _ (mem_deleteWhere (t := .processedMessages) hr (by simpa using ho))

end Cascade

/-- Every order item is of a product that exists. -/
def Stocked (T : Database) : Prop :=
  ∀ id (r : OrderItem), (T .orderItems).lookup id = some r →
    ((T .products).lookup r.productId).isSome = true

def Unsold (T : Database) (p : Uuid) : Prop :=
  ∀ id (r : OrderItem), (T .orderItems).lookup id = some r → r.productId ≠ p

section Stocked

variable {T : Database}

theorem Stocked.replay (h : Stocked T) {ws : List (Write schema)}
    (hrows : ∀ w ∈ ws, w.row.isSome = true)
    (hnew : ∀ id (r : OrderItem), (⟨Table.orderItems, id, some r⟩ : Write schema) ∈ ws →
      ((T .products).lookup r.productId).isSome = true) :
    Stocked (Tables.replay (S := schema) T ws) := by
  intro id r hr
  refine Tables.isSome_replay (S := schema) hrows ?_
  by_cases hw : ∃ w ∈ ws, w.at .orderItems id
  · obtain ⟨r', hmem, hlook⟩ := Tables.lookup_replay_written hw
    rw [hlook] at hr
    subst hr
    exact hnew id r hmem
  · rw [Tables.lookup_replay_other T (fun w hmem hat => hw ⟨w, hmem, hat⟩)] at hr
    exact h id r hr

theorem Stocked.delete (h : Stocked T) {t : Table} {id : Uuid} {ws : List (Write schema)}
    (hws : deletion (S := schema) T t id = some ws) (hunsold : t = .products → Unsold T id) :
    Stocked (Tables.replay (S := schema) T ws) := by
  intro j r hr
  obtain ⟨hold, _⟩ := lookup_deleted (S := schema) (deletion_rows hws) hr
  have hkept : ∀ w ∈ ws, ¬ w.at .products r.productId := by
    intro w hmem hat
    rcases deletion_cases hws ⟨w, hmem, hat⟩ with ⟨ht, hid⟩ | h | h | ⟨_, h, _⟩
    · exact hunsold ht.symm j r hold hid
    · cases h
    · cases h
    · cases h
  rw [Tables.lookup_replay_other T hkept]
  exact h j r hold

end Stocked

/-- The declared foreign keys, and the one that no migration creates. -/
def Referenced (T : Database) : Prop := Closed (S := schema) T ∧ Stocked T

/-- A thread knows products that exist; it adds order items of those only. -/
def Sells (g : List Uuid) : AppOp → Prop
  | .sql (.stmt (.insert .orderItems _ row)) => ∀ now, (row now).productId ∈ g
  | .sql (.stmt (.update .orderItems _ _)) | .sql (.stmt (.delete _ _)) => False
  | _ => True

def Finds (g : List Uuid) : (o : AppOp) → Except Thrown o.Ans → List Uuid → Prop
  | .sql (.stmt (.selectForUpdate .products p)), .ok (some _), g' => g' = p :: g
  | .sql (.stmt _), .ok _, g' => g' = g
  | .sql _, _, g' => g' = []
  | _, _, g' => g' = g

def selling : Protocol AppOp AppOp.Ans Thrown (List Uuid) where
  allowed := Sells
  next := Finds

/-- What thread `i` knows is true of the rows that it sees. -/
structure Selling (i : Nat) (g : List Uuid) (s : AppState) : Prop where
  keeps : s.store.Keeps (S := schema) Referenced i
  known : ∀ p ∈ g, ((s.store.view i .products).lookup p).isSome = true

section Step

variable {i : Nat} {g : List Uuid} {s s' : AppState} {c : Choice schema}

theorem Referenced.success {T : Database} (h : Referenced T) {q : Stmt schema}
    {ls : List (Resource schema)} {a : q.Ans} {ws : List (Write schema)}
    (ha : Sells g (.sql (.stmt q))) (hg : ∀ p ∈ g, ((T .products).lookup p).isSome = true)
    (hq : q.Success T c ls a ws) : Referenced (Tables.replay (S := schema) T ws) := by
  refine ⟨h.1.success cascades_schema hq, h.2.replay (hq.rows ?_) ?_⟩
  · rintro t id rfl
    exact ha
  · intro id r hw
    cases hq with
    | select | lockMissing | lock | updateMissing | deleteMissing => cases hw
    | insert t j row hnew hallow =>
      obtain ⟨rfl, _, hrow⟩ : Table.orderItems = t ∧ id = j.getD c.id ∧
        HEq (some r) (some (row c.now)) := by simpa using hw
      obtain rfl := Option.some.inj (eq_of_heq hrow)
      exact hg _ (ha c.now)
    | update t j set old hold hallow =>
      obtain ⟨rfl, _, _⟩ : Table.orderItems = t ∧ id = j ∧
        HEq (some r) (some (set c.now old)) := by simpa using hw
      exact ha.elim
    | delete => exact ha.elim

theorem Selling.keeps_exec (h : Selling i g s) {q : Sql.Op schema} {a : Except SqlError q.Ans}
    {store : Store schema} (ha : Sells g (.sql q)) (he : s.store.exec i c q = some (a, store)) :
    store.Keeps (S := schema) Referenced i := by
  refine h.keeps.exec he ?_
  rintro q ls a ws rfl hq
  exact h.keeps.view.success ha h.known hq

theorem sells_known {q : Stmt schema} {a : q.Ans} {store : Store schema}
    (ha : Sells g (.sql (.stmt q))) (he : s.store.exec i c (.stmt q) = some (.ok a, store)) :
    ∀ p, ((s.store.view i .products).lookup p).isSome = true →
      ((store.view i .products).lookup p).isSome = true := by
  obtain ⟨ls, ws, hq, hview⟩ := Store.exec_stmt_view he
  intro p hp
  rw [hview]
  refine Tables.isSome_replay (S := schema) (hq.rows ?_) hp
  rintro t id rfl
  exact ha

theorem selling_stmt (h : Selling i g s) {q : Stmt schema} {a : q.Ans} {store : Store schema}
    (ha : Sells g (.sql (.stmt q))) (he : s.store.exec i c (.stmt q) = some (.ok a, store)) :
    ∃ g', Finds g (.sql (.stmt q)) (.ok a) g' ∧ Selling i g' { s with store } := by
  have hkeeps := h.keeps_exec ha he
  have hknown := sells_known ha he
  have hsame : Selling i g { s with store } := ⟨hkeeps, fun p hp => hknown p (h.known p hp)⟩
  cases q with
  | select | insert | update | delete | malformed => exact ⟨g, rfl, hsame⟩
  | selectForUpdate t p =>
    cases t with
    | users | orders | orderItems | processedMessages => exact ⟨g, rfl, hsame⟩
    | products =>
      obtain ⟨ls, ws, hq, hview⟩ := Store.exec_stmt_view he
      cases hq with
      | lockMissing => exact ⟨g, rfl, hsame⟩
      | lock _ _ r hr =>
        refine ⟨p :: g, rfl, hkeeps, ?_⟩
        intro j hj
        rcases List.mem_cons.mp hj with rfl | hj
        · exact hknown _ (by rw [hr]; rfl)
        · exact hsame.known j hj

theorem selling_exec (h : Selling i g s) {ch : AppChoice} {o : AppOp} {r : Except Thrown o.Ans}
    (ha : Sells g o) (he : s.exec i ch o = some (r, s')) :
    ∃ g', Finds g o r g' ∧ Selling i g' s' := by
  cases o with
  | sql q =>
    obtain ⟨a, store, hexec, rfl, rfl⟩ := AppState.exec_sql he
    have hnothing : Selling i [] { s with store } :=
      ⟨h.keeps_exec ha hexec, fun p hp => by cases hp⟩
    cases q with
    | startTransaction | commitTransaction | rollbackTransaction => exact ⟨[], rfl, hnothing⟩
    | stmt q =>
      cases a with
      | ok a => exact selling_stmt h ha hexec
      | error e =>
        cases q with
        | selectForUpdate t p => cases t <;> exact ⟨[], rfl, hnothing⟩
        | _ => exact ⟨[], rfl, hnothing⟩
  | channelReady | randomUUID | dateNow | settle _ | publishStatusChanged _ | sendToQueue _ =>
    have hstore := AppState.exec_store he (by simp)
    exact ⟨g, rfl, by rw [hstore]; exact h.keeps, by rw [hstore]; exact h.known⟩

theorem selling_eval {α : Type} {p : App α}
    (hp : p.wp selling (fun _ _ => True) (fun _ _ => True) []) {chs : List AppChoice}
    {r : Except Thrown α} (hs : s.store.Keeps (S := schema) Referenced i)
    (h : p.eval app i s chs = some (r, s')) : s'.store.Keeps (S := schema) Referenced i := by
  have hwp := Prog.wp_simulation (K := Prog.alone app i) (R := fun g s => Selling i g s) ?_
    ⟨hs, fun p hp => by cases hp⟩ hp
  · have hend := Prog.eval_outcome hwp h
    cases r with
    | ok a =>
      obtain ⟨g, hg, _⟩ := hend
      exact hg.keeps
    | error e =>
      obtain ⟨g, hg, _⟩ := hend
      exact hg.keeps
  · intro g s o hg ha
    refine ⟨trivial, ?_⟩
    rintro r s' ⟨ch, he⟩
    exact selling_exec hg ha he

end Step

def SellsNothing (o : AppOp) : Prop := ∀ g, Sells g o

section Calls

variable {g : List Uuid}

theorem selling_awaits {α : Type} {p : App α} (hp : p.Awaits SellsNothing) {g : List Uuid} :
    p.wp selling (fun _ _ => True) (fun _ _ => True) g :=
  hp.wp (I := fun _ => True) (fun g _ _ ho => ⟨ho g, fun _ _ _ => trivial⟩) trivial

theorem selling_ok {q : Stmt schema} {Q : q.Ans → List Uuid → Prop}
    (ha : Sells g (.sql (.stmt q))) (hok : ∀ a g', Finds g (.sql (.stmt q)) (.ok a) g' → Q a g') :
    (sql (.stmt q)).wp selling Q (fun _ _ => True) g :=
  (Prog.wp_await _ _ _ _).mpr ⟨ha, hok, fun _ _ _ => trivial⟩

theorem selling_findOne {t : Table} {cond : Uuid → t.Row → Bool} :
    (findOne t cond).wp selling (fun _ g' => g' = g) (fun _ _ => True) g := by
  refine (Prog.wp_bind _ _ _ _ _).mpr (selling_ok trivial ?_)
  exact fun _ _ hn => hn

theorem selling_managerSave {id : Uuid} {entity : Product} :
    (managerSave .products id entity).wp selling (fun _ g' => g' = g) (fun _ _ => True) g := by
  refine (Prog.wp_bind _ _ _ _ _).mpr (Prog.wp_mono selling_findOne ?_ (fun _ _ h => h))
  intro found g₁ hg₁
  subst hg₁
  split
  · rfl
  · cases found with
    | none => exact (Prog.wp_bind _ _ _ _ _).mpr (selling_ok trivial (fun _ _ hn => hn))
    | some e => exact (Prog.wp_bind _ _ _ _ _).mpr (selling_ok trivial (fun _ _ hn => hn))

theorem selling_findProduct (id : String) :
    (findOneForUpdate .products id).wp selling
      (fun found g' => ∀ p r, found = some (p, r) → p ∈ g') (fun _ _ => True) g := by
  unfold findOneForUpdate
  split
  · next u hu =>
    refine (Prog.wp_bind _ _ _ _ _).mpr (selling_ok trivial ?_)
    intro row g₁ hn
    cases row with
    | none =>
      intro p r hsome
      cases hsome
    | some product =>
      intro p r hsome
      have hg₁ : g₁ = u :: g := hn
      obtain ⟨rfl, _⟩ := Prod.mk.inj (Option.some.inj hsome)
      rw [hg₁]
      exact List.mem_cons_self
  · refine (Prog.wp_bind _ _ _ _ _).mpr (selling_ok trivial ?_)
    intro a
    exact nomatch (show Empty from a)

theorem selling_createItem (orderId : Uuid) (item : CreateOrderItem) :
    (createItem orderId item).wp selling (fun _ _ => True) (fun _ _ => True) g := by
  refine (Prog.wp_bind _ _ _ _ _).mpr (Prog.wp_mono (selling_findProduct _) ?_ (fun _ _ h => h))
  intro found g₁ hfound
  cases found with
  | none => trivial
  | some e =>
    dsimp only
    split
    · trivial
    · split
      · trivial
      · refine (Prog.wp_bind _ _ _ _ _).mpr (Prog.wp_mono selling_managerSave ?_ (fun _ _ h => h))
        intro _ g₂ hg₂
        subst hg₂
        exact selling_ok (fun _ => hfound _ _ rfl) (fun _ _ _ => trivial)

theorem selling_createItems (orderId : Uuid) (items : List CreateOrderItem) :
    (createItems orderId items).wp selling (fun _ _ => True) (fun _ _ => True) g := by
  induction items generalizing g with
  | nil => trivial
  | cons item items ih =>
    refine (Prog.wp_bind _ _ _ _ _).mpr
      (Prog.wp_mono (selling_createItem orderId item) ?_ (fun _ _ h => h))
    intro _ g₁ _
    exact (Prog.wp_bind _ _ _ _ _).mpr (Prog.wp_mono ih (fun _ _ _ => trivial) (fun _ _ h => h))

theorem selling_bind {α β : Type} {p : App α} {f : α → App β}
    (hp : p.wp selling (fun _ _ => True) (fun _ _ => True) g)
    (hf : ∀ a g', (f a).wp selling (fun _ _ => True) (fun _ _ => True) g') :
    (p >>= f).wp selling (fun _ _ => True) (fun _ _ => True) g :=
  (Prog.wp_bind _ _ _ _ _).mpr (Prog.wp_mono hp (fun a g' _ => hf a g') (fun _ _ h => h))

theorem sellsNothing_select (t : Table) (cond : Uuid → t.Row → Bool) :
    SellsNothing (.sql (.stmt (.select t cond))) := fun _ => trivial

theorem selling_createInTransaction (dto : CreateOrderDto) (userId : Uuid) (key : Option String) :
    (createInTransaction dto userId key).wp selling (fun _ _ => True) (fun _ _ => True) g := by
  refine selling_bind (selling_ok trivial (fun _ _ _ => trivial)) ?_
  intro saved g₁
  refine selling_bind (selling_createItems _ _) ?_
  intro _ g₂
  refine selling_bind (selling_awaits (awaits_findOrderWithItems sellsNothing_select _)) ?_
  intro found g₃
  cases found with
  | none => trivial
  | some e =>
    have hcommit : SellsNothing (.sql .commitTransaction) := fun _ => trivial
    exact selling_bind (selling_awaits (Prog.awaits_await hcommit)) (fun _ _ => trivial)

theorem selling_createOrder (dto : CreateOrderDto) (userId : Uuid) (key : Option String) :
    (createOrder dto userId key).wp selling (fun _ _ => True) (fun _ _ => True) g := by
  have hstart : SellsNothing (.sql .startTransaction) := fun _ => trivial
  have hrollback : SellsNothing (.sql .rollbackTransaction) := fun _ => trivial
  refine selling_bind (selling_awaits (Prog.awaits_await hstart)) ?_
  intro _ g₁
  refine selling_bind ((Prog.wp_tryCatch _ _ _ _ _).mpr (Prog.wp_mono
    (selling_bind (selling_createInTransaction dto userId key) (fun _ _ => trivial))
    (fun _ _ h => h) ?_)) ?_
  · intro e g₂ _
    exact selling_bind (selling_awaits (awaits_createFailed hrollback sellsNothing_select key e))
      (fun _ _ => trivial)
  · intro outcome g₂
    cases outcome with
    | inr duplicate => trivial
    | inl created =>
      have hpublish := awaits_publishOrderCreated (A := SellsNothing) (fun _ => trivial)
        (fun _ => trivial) (fun _ _ => trivial)
      exact selling_bind (selling_awaits (hpublish created)) (fun _ _ => trivial)

theorem selling_create (dto : CreateOrderDto) (idempotencyKey : Option String) :
    (create dto idempotencyKey).wp selling (fun _ _ => True) (fun _ _ => True) g := by
  refine selling_bind (selling_awaits (awaits_findByKey sellsNothing_select _)) ?_
  intro found g₁
  cases found with
  | some e => trivial
  | none =>
    dsimp only
    split
    · trivial
    · have hmalformed : ∀ e, SellsNothing (.sql (.stmt (.malformed e))) := fun _ _ => trivial
      refine selling_bind (selling_awaits
        (awaits_findOneById (sellsNothing_select _) hmalformed _)) ?_
      intro user g₂
      cases user with
      | none => trivial
      | some u => exact selling_createOrder dto _ _

end Calls

inductive StoreCall where
  | createProduct (dto : ProductsService.CreateProductDto)
  | createUser (hash : String → String) (email : String) (password : Option String)
    (roles scopes : Option (List String))
  | createOrder (call : CreateCall)
  | deleteOrder (id : String)
  | deleteProduct (id : String)
  | deleteUser (id : String)

def StoreCall.program : StoreCall → App Unit
  | createProduct dto => do let _ ← ProductsService.create dto
  | createUser hash email password roles scopes => do
    let _ ← UsersService.create hash email password roles scopes
  | createOrder call => do let _ ← call.program
  | deleteOrder id => Ecomm.deleteOrder id
  | deleteProduct id => ProductsService.deleteProduct id
  | deleteUser id => UsersService.deleteUser id

/-- A product is deleted only when no order item is of it. -/
def Spares (s : AppState) : StoreCall → Prop
  | .deleteProduct id => ∀ p, uuidIn id = some p → Unsold s.store.tables p
  | _ => True

/-- Between two calls: no transaction is open, and every reference holds. -/
structure AtRest (s : AppState) : Prop where
  resting : Resting s.store.tables s
  referenced : Referenced s.store.tables

section Runs

variable {s s' : AppState} {i : Nat}

theorem AtRest.tidy {α : Type} {p : App α} (h : AtRest s) (htidy : Tidy p)
    (hsells : p.wp selling (fun _ _ => True) (fun _ _ => True) []) {chs : List AppChoice}
    {r : Except Thrown α} (he : p.eval app i s chs = some (r, s')) : AtRest s' := by
  have hkeeps : s.store.Keeps (S := schema) Referenced i := .closed h.referenced (h.resting.tx i)
  exact ⟨(htidy.resting h.resting he).begin, (selling_eval hsells hkeeps he).committed⟩

theorem AtRest.stmt (h : AtRest s) {ch : AppChoice} {q : Stmt schema}
    {r : Except Thrown (AppOp.sql (.stmt q)).Ans} (he : s.exec i ch (.sql (.stmt q)) = some (r, s'))
    (hq : ∀ ls a ws, q.Success s.store.tables ch.sql ls a ws →
      Referenced (Tables.replay (S := schema) s.store.tables ws)) : AtRest s' := by
  obtain ⟨a, store, hexec, rfl, rfl⟩ := AppState.exec_sql he
  have htx := h.resting.tx i
  have hkeeps : s.store.Keeps (S := schema) Referenced i := .closed h.referenced htx
  have hnext := hkeeps.exec hexec (by
    rintro q' ls a ws heq hsuccess
    obtain rfl := Op.stmt.inj heq
    rw [Store.view_none htx] at hsuccess ⊢
    exact hq ls a ws hsuccess)
  refine ⟨⟨h.resting.coherent.exec hexec, ?_, fun _ _ hr => hr⟩, hnext.committed⟩
  intro j
  by_cases hj : j = i
  · subst hj
    exact Store.exec_tx_none hexec htx (by simp)
  · exact (Store.exec_tx_other hexec hj).trans (h.resting.tx j)

theorem atRest_delete (h : AtRest s) {t : Table} {id message : String} {chs : List AppChoice}
    {r : Except Thrown Unit} (hunsold : t = .products → ∀ p, uuidIn id = some p →
      Unsold s.store.tables p)
    (he : (do
      let affected ← delete t id
      if affected = 0 then throw (.notFound message) else pure () : App Unit).eval app i s chs =
        some (r, s')) : AtRest s' := by
  have hwp : (do
      let affected ← delete t id
      if affected = 0 then throw (.notFound message) else pure () : App Unit).wp
        (Prog.alone app i) (fun _ => AtRest) (fun _ => AtRest) s := by
    refine (Prog.wp_bind _ _ _ _ _).mpr ?_
    unfold delete
    split
    · next u hu =>
      have hstmt : ∀ ch r s₁, s.exec i ch (.sql (.stmt (.delete t u))) = some (r, s₁) →
          AtRest s₁ := by
        intro ch r s₁ hexec
        refine h.stmt hexec ?_
        intro ls a ws hq
        cases hq with
        | deleteMissing => exact h.referenced
        | delete _ _ old ws hold hws =>
          refine ⟨h.referenced.1.delete cascades_schema hws, h.referenced.2.delete hws ?_⟩
          exact fun ht => hunsold ht u hu
      refine (Prog.wp_await _ _ _ _).mpr ⟨trivial, ?_, ?_⟩
      · rintro a s₁ ⟨ch, hexec⟩
        dsimp only
        split
        · exact hstmt ch _ s₁ hexec
        · exact hstmt ch _ s₁ hexec
      · rintro e s₁ ⟨ch, hexec⟩
        exact hstmt ch _ s₁ hexec
    · refine (Prog.wp_bind _ _ _ _ _).mpr ((Prog.wp_await _ _ _ _).mpr ⟨trivial, ?_, ?_⟩)
      · intro a
        exact nomatch (show Empty from a)
      · rintro e s₁ ⟨ch, hexec⟩
        refine h.stmt hexec ?_
        intro ls a
        exact nomatch (show Empty from a)
  have hend := Prog.eval_outcome hwp he
  cases r with
  | ok a => exact hend
  | error e => exact hend

theorem tidy_insert (t : Table) (row : Nat → t.Row) : Tidy (transaction (insert t none row)) :=
  tidy_transaction (keeps_insert t none row)

theorem selling_insert {t : Table} {row : Nat → t.Row} (ht : t ≠ .orderItems) {g : List Uuid} :
    (transaction (insert t none row)).wp selling (fun _ _ => True) (fun _ _ => True) g := by
  refine selling_awaits (awaits_transaction (fun _ => trivial) (fun _ => trivial)
    (fun _ => trivial) (Prog.awaits_await ?_))
  cases t with
  | orderItems => exact absurd rfl ht
  | users | products | orders | processedMessages => exact fun _ => trivial

theorem tidy_createUser (hash : String → String) (email : String) (password : Option String)
    (roles scopes : Option (List String)) :
    Tidy (UsersService.create hash email password roles scopes) := by
  refine (keeps_findOne .users _).tidy.bind (fun existing => ?_)
  cases existing with
  | some e => exact (keeps_pure _).tidy
  | none => exact tidy_insert .users _

theorem selling_createUser (hash : String → String) (email : String) (password : Option String)
    (roles scopes : Option (List String)) {g : List Uuid} :
    (UsersService.create hash email password roles scopes).wp selling
      (fun _ _ => True) (fun _ _ => True) g := by
  refine selling_bind (selling_awaits (awaits_findOne (sellsNothing_select _ _))) ?_
  intro existing g'
  cases existing with
  | some e => trivial
  | none => exact selling_insert (by decide)

theorem tidy_unit {α : Type} {p : App α} (hp : Tidy p) : Tidy (do let _ ← p : App Unit) :=
  hp.bind (fun _ => (keeps_pure ()).tidy)

theorem selling_unit {α : Type} {p : App α} {g : List Uuid}
    (hp : p.wp selling (fun _ _ => True) (fun _ _ => True) g) :
    (do let _ ← p : App Unit).wp selling (fun _ _ => True) (fun _ _ => True) g :=
  selling_bind hp (fun _ _ => trivial)

/-- One call, run alone to its end, keeps every reference. -/
theorem atRest_call (h : AtRest s) {call : StoreCall} (hspares : Spares s call)
    {chs : List AppChoice} {r : Except Thrown Unit}
    (he : call.program.eval app i s chs = some (r, s')) : AtRest s' := by
  cases call with
  | createProduct dto =>
    exact h.tidy (tidy_unit (tidy_insert .products dto.row))
      (selling_unit (selling_insert (by decide))) he
  | createUser hash email password roles scopes =>
    exact h.tidy (tidy_unit (tidy_createUser hash email password roles scopes))
      (selling_unit (selling_createUser hash email password roles scopes)) he
  | createOrder call =>
    exact h.tidy (tidy_unit (tidy_create _ _)) (selling_unit (selling_create _ _)) he
  | deleteOrder id => exact atRest_delete h (fun ht => by cases ht) he
  | deleteProduct id => exact atRest_delete h (fun _ => hspares) he
  | deleteUser id => exact atRest_delete h (fun ht => by cases ht) he

end Runs

/-- Every order item refers to an order and a product, every order to a user. -/
structure Integrity (T : Database) : Prop where
  item_order : ∀ id (r : OrderItem), (T .orderItems).lookup id = some r →
    ((T .orders).lookup r.orderId).isSome = true
  item_product : ∀ id (r : OrderItem), (T .orderItems).lookup id = some r →
    ((T .products).lookup r.productId).isSome = true
  order_user : ∀ id (r : Order), (T .orders).lookup id = some r →
    ((T .users).lookup r.userId).isSome = true

theorem Referenced.integrity {T : Database} (h : Referenced T) : Integrity T where
  item_order id r hr := refsExist_iff.mp (h.1 .orderItems id r hr) _ List.mem_cons_self
  item_product := h.2
  order_user id r hr := refsExist_iff.mp (h.1 .orders id r hr) _ List.mem_cons_self

def empty : Database := fun _ => ∅

theorem atRest_empty : AtRest (serving empty) where
  resting :=
    { coherent := (serving_quiet (Distinct.of_entries (by
        intro t e he
        cases he))).coherent
      tx := fun _ => rfl
      rows := fun _ _ hr => hr }
  referenced := by
    constructor
    · intro t id r hr
      cases hr
    · intro id r hr
      cases hr

/-- From an empty database, with products deleted only while no order item is
of them, all references hold after any sequence of calls. -/
theorem references_hold {es : List (Episode app StoreCall)} {s : AppState}
    (hspares : Episode.Meet StoreCall.program Spares (serving empty) es)
    (h : Episode.runAll StoreCall.program (serving empty) es = some s) :
    Integrity s.store.tables := by
  have hend : AtRest s := by
    refine Episode.runAll_induction (I := AtRest) ?_ atRest_empty hspares h
    exact fun hs hc he => atRest_call hs hc he
  exact hend.referenced.integrity

def penSale : List (Episode app StoreCall) :=
  [⟨0, .createUser id "ann@example.com" none none none, List.replicate 4 (tick 1)⟩,
    ⟨1, .createProduct ⟨"Pen", "PEN", none, 3, some 5, none⟩, List.replicate 3 (tick 2)⟩,
    ⟨2, .createOrder (penOrder none 1), List.replicate 13 (tick 3)⟩]

def deletePen : Episode app StoreCall := ⟨4, .deleteProduct (uuidOut 2), [tick 0]⟩

/-- The order is deleted, and no item is left. -/
def penReturn : List (Episode app StoreCall) :=
  penSale ++ [⟨3, .deleteOrder (uuidOut 3), [tick 0]⟩]

theorem penReturn_unsold {s : AppState}
    (h : Episode.runAll StoreCall.program (serving empty) penReturn = some s) :
    Unsold s.store.tables 2 := by
  have hnone : (Episode.runAll StoreCall.program (serving empty) penReturn).map
      (fun s => (s.store.tables .orderItems).entries.length) = some 0 := by decide +kernel
  rw [h] at hnone
  have hempty := List.eq_nil_of_length_eq_zero (Option.some.inj hnone)
  intro id r hr
  have hmem := AList.mem_lookup_iff.mp hr
  rw [hempty] at hmem
  cases hmem

theorem references_hold_unsold :
    ∃ s, Episode.Meet StoreCall.program Spares (serving empty) (penReturn ++ [deletePen]) ∧
      Episode.runAll StoreCall.program (serving empty) (penReturn ++ [deletePen]) = some s ∧
      Integrity s.store.tables := by
  have hspares : Episode.Meet StoreCall.program Spares (serving empty)
      (penReturn ++ [deletePen]) := by
    refine Episode.Meet.append (Episode.meet_of_forall ?_ _) ?_
    · intro e he s
      simp only [penReturn, penSale, List.cons_append, List.nil_append, List.mem_cons,
        List.not_mem_nil, or_false] at he
      rcases he with rfl | rfl | rfl | rfl <;> trivial
    · intro s hs
      refine ⟨?_, fun _ _ => trivial⟩
      intro p hp
      rw [uuidIn_uuidOut] at hp
      obtain rfl := Option.some.inj hp
      exact penReturn_unsold hs
  have hrun : (Episode.runAll StoreCall.program (serving empty)
      (penReturn ++ [deletePen])).isSome = true := by decide +kernel
  obtain ⟨s, hs⟩ := Option.isSome_iff_exists.mp hrun
  exact ⟨s, hspares, hs, references_hold hspares hs⟩

/-- The server lets go a product that an order item refers to. -/
theorem references_hold_sold :
    ¬ ∀ (es : List (Episode app StoreCall)) s,
      Episode.runAll StoreCall.program (serving empty) es = some s → Integrity s.store.tables := by
  intro h
  have hrun : (Episode.runAll StoreCall.program (serving empty) (penSale ++ [deletePen])).map
      (fun s => ((s.store.tables .orderItems).lookup 3 |>.map OrderItem.productId,
        ((s.store.tables .products).lookup 2).isSome)) = some (some 2, false) := by
    decide +kernel
  obtain ⟨s, hs, heq⟩ := Option.map_eq_some_iff.mp hrun
  obtain ⟨hitem, hproduct⟩ := Prod.mk.inj heq
  obtain ⟨r, hr, hid⟩ := Option.map_eq_some_iff.mp hitem
  have hthere := (h _ s hs).item_product 3 r hr
  rw [hid, hproduct] at hthere
  cases hthere

end Ecomm
