import Ecomm.Lib.Context
import Ecomm.Lib.ForeignKeys
import Ecomm.Publication

/-! What a call of `create` without a key does when it runs alone: it succeeds
exactly when the stock covers the lines together, and then it sells them. -/

namespace Ecomm

open Concurrent Sql

/-- Every line names a product whose stock covers all the lines that name it. -/
def Available (T : Database) (lines : List CreateOrderItem) : Prop :=
  ∀ line ∈ lines, ∃ p r, uuidIn line.productId = some p ∧
    (T .products).lookup p = some r ∧ demand lines p ≤ r.stock

def Unlisted (lines : List CreateOrderItem) (p : Uuid) : Prop :=
  ∀ line ∈ lines, uuidIn line.productId ≠ some p

/-- The tables in which the lines have been sold under order `o`. -/
structure Filled (T : Database) (o : Uuid) (order : Order) (lines : List CreateOrderItem)
    (V : Database) : Prop where
  available : Available T lines
  users : V .users = T .users
  messages : V .processedMessages = T .processedMessages
  orders : V .orders = (T .orders).insert o order
  sold : ∀ p r, (T .products).lookup p = some r → ∃ now, (V .products).lookup p =
    some { r with stock := r.stock - demand lines p, updatedAt := now }
  others : ∀ p, Unlisted lines p → (V .products).lookup p = (T .products).lookup p
  items : ∃ news, (V .orderItems).entries = news ++ (T .orderItems).entries ∧
    (∀ e ∈ news, e.2.orderId = o) ∧
    news.map (fun e => (some e.2.productId, e.2.quantity)) =
      lines.reverse.map (fun line => (uuidIn line.productId, line.quantity))

section Lines

variable {T V : Database} {lines more : List CreateOrderItem} {line : CreateOrderItem} {p : Uuid}

theorem demand_append (lines more : List CreateOrderItem) (p : Uuid) :
    demand (lines ++ more) p = demand lines p + demand more p := by
  simp [demand]

theorem demand_single (line : CreateOrderItem) (p : Uuid) : demand [line] p = line.amount p := by
  simp [demand]

theorem amount_self (h : uuidIn line.productId = some p) : line.amount p = line.quantity := by
  simp [CreateOrderItem.amount, h]

theorem amount_other (h : uuidIn line.productId ≠ some p) : line.amount p = 0 := by
  simp [CreateOrderItem.amount, h]

theorem demand_nonneg (h : ∀ line ∈ lines, 1 ≤ line.quantity) (p : Uuid) : 0 ≤ demand lines p := by
  induction lines with
  | nil => simp [demand]
  | cons line lines ih =>
    have hq := h line List.mem_cons_self
    have hrest := ih (fun l hl => h l (List.mem_cons_of_mem _ hl))
    rw [demand_cons]
    unfold CreateOrderItem.amount
    split <;> omega

theorem Available.first (h : Available T (lines ++ more))
    (hmore : ∀ line ∈ more, 1 ≤ line.quantity) : Available T lines := by
  intro line hline
  obtain ⟨p, r, hp, hr, hle⟩ := h line (List.mem_append_left _ hline)
  rw [demand_append] at hle
  have hnonneg := demand_nonneg hmore p
  exact ⟨p, r, hp, hr, by omega⟩

theorem Available.append (h : Available T lines) {r : Product} (hp : uuidIn line.productId = some p)
    (hr : (T .products).lookup p = some r) (hle : demand lines p + line.quantity ≤ r.stock) :
    Available T (lines ++ [line]) := by
  have htotal : ∀ j, demand (lines ++ [line]) j = demand lines j + line.amount j := by
    intro j
    rw [demand_append, demand_single]
  intro l hl
  rcases List.mem_append.mp hl with hl | hl
  · obtain ⟨j, q, hj, hq, hjle⟩ := h l hl
    refine ⟨j, q, hj, hq, ?_⟩
    rw [htotal]
    by_cases hjp : j = p
    · subst hjp
      obtain rfl := Option.some.inj (hr.symm.trans hq)
      rwa [amount_self hp]
    · have hother : uuidIn line.productId ≠ some j := by
        rw [hp]
        exact fun heq => hjp (Option.some.inj heq).symm
      rw [amount_other hother]
      omega
  · obtain rfl := List.mem_singleton.mp hl
    refine ⟨p, r, hp, hr, ?_⟩
    rw [htotal, amount_self hp]
    exact hle

theorem Available.last (h : Available T (lines ++ [line])) :
    ∃ p r, uuidIn line.productId = some p ∧ (T .products).lookup p = some r ∧
      demand lines p + line.quantity ≤ r.stock := by
  obtain ⟨p, r, hp, hr, hle⟩ := h line (by simp)
  refine ⟨p, r, hp, hr, ?_⟩
  rwa [demand_append, demand_single, amount_self hp] at hle

end Lines

namespace Filled

variable {T V : Database} {o : Uuid} {order : Order} {lines : List CreateOrderItem}
  {line : CreateOrderItem} {p : Uuid}

theorem begin (T : Database) (o : Uuid) (order : Order) :
    Filled T o order [] (T.write ⟨.orders, o, some order⟩) where
  available := nofun
  users := Tables.write_other_table _ (by simp)
  messages := Tables.write_other_table _ (by simp)
  orders := by simp [Tables.write]
  sold p r hr := by
    refine ⟨r.updatedAt, ?_⟩
    rw [Tables.write_other_table _ (by simp), hr]
    simp [demand]
  others p _ := by rw [Tables.write_other_table _ (by simp)]
  items := ⟨[], by rw [Tables.write_other_table _ (by simp)]; rfl, nofun, rfl⟩

theorem missing (h : Filled T o order lines V) (hp : (V .products).lookup p = none) :
    (T .products).lookup p = none := by
  cases hr : (T .products).lookup p with
  | none => rfl
  | some r =>
    obtain ⟨now, hnow⟩ := h.sold p r hr
    rw [hp] at hnow
    cases hnow

theorem present (h : Filled T o order lines V) {r' : Product}
    (hp : (V .products).lookup p = some r') : ∃ r now, (T .products).lookup p = some r ∧
      r' = { r with stock := r.stock - demand lines p, updatedAt := now } := by
  cases hr : (T .products).lookup p with
  | none =>
    have hunlisted : Unlisted lines p := by
      intro line hline heq
      obtain ⟨j, q, hj, hq, _⟩ := h.available line hline
      obtain rfl := Option.some.inj (hj.symm.trans heq)
      rw [hr] at hq
      cases hq
    rw [h.others p hunlisted, hr] at hp
    cases hp
  | some r =>
    obtain ⟨now, hnow⟩ := h.sold p r hr
    exact ⟨r, now, rfl, Option.some.inj (hp.symm.trans hnow)⟩

theorem sell (h : Filled T o order lines V) {r : Product} {now : Nat}
    (hp : uuidIn line.productId = some p) (hr : (T .products).lookup p = some r)
    (hle : demand lines p + line.quantity ≤ r.stock) {j : Uuid} {item : OrderItem}
    (hj : (V .orderItems).lookup j = none) (ho : item.orderId = o) (hproduct : item.productId = p)
    (hq : item.quantity = line.quantity) :
    Filled T o order (lines ++ [line])
      ((V.write ⟨.products, p, some { r with
        stock := r.stock - demand (lines ++ [line]) p, updatedAt := now }⟩).write
        ⟨.orderItems, j, some item⟩) := by
  generalize hW : V.write ⟨.products, p, some { r with
    stock := r.stock - demand (lines ++ [line]) p, updatedAt := now }⟩ = W
  have hsame : ∀ t, t ≠ .products → W t = V t := by
    intro t ht
    rw [← hW]
    exact Tables.write_other_table _ (Ne.symm ht)
  have hother : ∀ q, q ≠ p → (W .products).lookup q = (V .products).lookup q := by
    intro q hqp
    rw [← hW]
    refine Tables.lookup_write_other (S := schema) V ?_
    intro hat
    exact hqp hat.2.symm
  have hself : (W .products).lookup p = some { r with
      stock := r.stock - demand (lines ++ [line]) p, updatedAt := now } := by
    rw [← hW]
    exact Tables.lookup_write_self (S := schema) V .products p _
  have hkept : ∀ t, t ≠ .orderItems → W.write ⟨.orderItems, j, some item⟩ t = W t :=
    fun t ht => Tables.write_other_table _ (Ne.symm ht)
  constructor
  case available => exact h.available.append hp hr hle
  case users => rw [hkept _ (by simp), hsame _ (by simp), h.users]
  case messages => rw [hkept _ (by simp), hsame _ (by simp), h.messages]
  case orders => rw [hkept _ (by simp), hsame _ (by simp), h.orders]
  case sold =>
    intro q q' hq'
    rw [hkept _ (by simp)]
    by_cases hqp : q = p
    · subst hqp
      obtain rfl := Option.some.inj (hr.symm.trans hq')
      exact ⟨now, hself⟩
    · have hline : uuidIn line.productId ≠ some q := by
        rw [hp]
        exact fun heq => hqp (Option.some.inj heq).symm
      obtain ⟨before, hbefore⟩ := h.sold q q' hq'
      refine ⟨before, ?_⟩
      rw [hother q hqp, hbefore, demand_append, demand_single, amount_other hline, add_zero]
  case others =>
    intro q hunlisted
    have hqp : q ≠ p := by
      rintro rfl
      exact hunlisted line (by simp) hp
    rw [hkept _ (by simp), hother q hqp]
    exact h.others q (fun l hl => hunlisted l (List.mem_append_left _ hl))
  case items =>
    obtain ⟨news, hentries, hids, hlines⟩ := h.items
    refine ⟨⟨j, item⟩ :: news, ?_, ?_, ?_⟩
    · have hnew : j ∉ W .orderItems := by
        rw [hsame _ (by simp)]
        exact AList.lookup_eq_none.mp hj
      simp only [Tables.write, Function.update_self]
      rw [AList.entries_insert_of_notMem hnew, hsame _ (by simp), hentries]
      rfl
    · intro e he
      rcases List.mem_cons.mp he with rfl | he
      · exact ho
      · exact hids e he
    · simp [hlines, hproduct, hq, hp]

end Filled

/-- What the environment brings to a call that runs alone and meets no failure. A
generated id is not in use in its table. -/
structure Serves (i : Nat) (s : AppState) (o : AppOp) (c : AppChoice) : Prop where
  fault : c.sql.fault = false
  clock : c.sql.now ≤ maxTime
  channel : c.send ≠ .closed
  fresh : ∀ t row, o = .sql (.stmt (.insert t none row)) →
    (s.store.view i t).lookup c.sql.id = none

def undisturbed (i : Nat) : Protocol AppOp AppOp.Ans Thrown AppState := Prog.unblocked app (Serves i) i

section Serve

variable {s : AppState} {i : Nat} {F : AppState → AppOp → AppChoice → Prop}

theorem serve_sql {o : Sql.Op schema} {Q : o.Ans → AppState → Prop} {E : Thrown → AppState → Prop}
    (h : ∀ c, F s (.sql o) c → ∃ r store, s.store.exec i c.sql o = some (r, store) ∧
      Prog.Outcome Q (fun e => E (.sql e)) r { s with store }) :
    (sql o).wp (Prog.unblocked app F i) Q E s := by
  refine Prog.wp_unblocked ?_
  intro c hc
  obtain ⟨r, store, he, hr⟩ := h c hc
  cases r with
  | ok a => exact ⟨.ok a, _, by simp [AppState.exec, he], hr⟩
  | error e => exact ⟨.error (.sql e), _, by simp [AppState.exec, he], hr⟩

variable (hF : ∀ o c, F s o c → c.sql.fault = false) (ha : s.store.isAborted i = false)
include hF ha

theorem serve_find (t : Table) (cond : Uuid → t.Row → Bool)
    {Q : List (Uuid × t.Row) → AppState → Prop} {E : Thrown → AppState → Prop}
    (hQ : Q (((s.store.view i t).entries.filter (fun e => cond e.1 e.2)).map
      (fun e => (e.1, e.2))) s) : (find t cond).wp (Prog.unblocked app F i) Q E s := by
  refine serve_sql ?_
  intro c hc
  exact ⟨_, _, Store.exec_select_view (hF _ c hc) ha t cond, hQ⟩

theorem serve_findOne (t : Table) (id : Uuid)
    {Q : Option (Uuid × t.Row) → AppState → Prop} {E : Thrown → AppState → Prop}
    (hQ : Q (((s.store.view i t).lookup id).map (fun r => (id, r))) s) :
    (findOne t (fun j _ => j = id)).wp (Prog.unblocked app F i) Q E s := by
  refine (Prog.wp_bind _ _ _ _ _).mpr (serve_find hF ha t _ ?_)
  rw [← head_rows_id] at hQ
  exact hQ

end Serve

/-- No transaction is open, and the rows meet the constraints of the database. -/
structure Valid (s : AppState) : Prop where
  tx : ∀ i, s.store.tx i = none
  owner : ∀ l, s.store.owner l = none
  unique : Distinct s.store.tables
  types : ∀ t id r, (s.store.tables t).lookup id = some r → schema.check t r = none
  refs : Closed (S := schema) s.store.tables

theorem Valid.coherent {s : AppState} (hs : Valid s) : s.store.Coherent :=
  .quiet hs.tx hs.owner hs.unique

structure Filling (T : Database) (o : Uuid) (order : Order) (i : Nat)
    (lines : List CreateOrderItem) (s : AppState) : Prop where
  coherent : s.store.Coherent
  view : ∃ ws, s.store.Solo i T ws ∧ Filled T o order lines (T.replay ws)

def Refused (T : Database) (e : Thrown) (s : AppState) : Prop :=
  s.store.tables = T ∧ isUniqueViolation e = false

section Columns

theorem numeric_numeric (x : ℚ) : numeric (numeric x) = numeric x := by
  have h : numeric x * 100 = (round (x * 100) : ℚ) := by
    unfold numeric
    field_simp
  rw [numeric, h, round_intCast, numeric]

theorem int4_iff {x : Int} : int4 x = none ↔ -(2 ^ 31) ≤ x ∧ x < 2 ^ 31 := by
  unfold int4
  split <;> simp_all

theorem check_product {r : Product} :
    schema.check .products r = none ↔ varchar 200 r.name = none ∧ varchar 64 r.sku = none ∧
      numeric12 r.price = none ∧ int4 r.stock = none := by
  simp [columnTypes]

theorem check_orderItem {r : OrderItem} : schema.check .orderItems r = none ↔
    int4 r.quantity = none ∧ numeric12 r.priceSnapshot = none := by
  simp [columnTypes]

theorem keyTaken_product {V : Database} (hV : Distinct V) {p : Uuid} {r r' : Product}
    (hr : (V .products).lookup p = some r) (hsku : r'.sku = r.sku) :
    keyTaken (S := schema) V .products p r' = false := by
  refine List.any_eq_false.mpr ?_
  intro e he htaken
  simp only [ne_eq, uniqueKeys, hsku, List.any_cons, List.any_nil, Bool.or_false,
    Bool.and_eq_true, decide_eq_true_eq, List.mem_singleton] at htaken
  obtain ⟨hne, hkey⟩ := htaken
  have hlookup : (V .products).lookup e.1 = some e.2 := AList.mem_lookup_iff.mpr he
  refine hne (hV .products e.1 p e.2 r (.sku r.sku) hlookup hr ?_ ?_)
  · simp [uniqueKeys, hkey]
  · simp [uniqueKeys]

end Columns

section Loop

variable {s : AppState} {i : Nat} {T : Database} {o : Uuid} {order : Order}
  {lines : List CreateOrderItem} {line : CreateOrderItem}

theorem serve_managerSave {ws : List (Write schema)} {p : Uuid} {r : Product} {q : Int}
    {Q : Product → AppState → Prop} {E : Thrown → AppState → Prop} (hq : 1 ≤ q)
    (hcoherent : s.store.Coherent) (hsolo : s.store.Solo i T ws)
    (hr : (T.replay ws .products).lookup p = some r)
    (hcheck : ∀ now, schema.check .products
      { r with stock := r.stock - q, updatedAt := now } = none)
    (hQ : ∀ a now (store : Store schema), store.Coherent → store.Solo i T
      (ws ++ [⟨.products, p, some { r with stock := r.stock - q, updatedAt := now }⟩]) →
      Q a { s with store }) :
    (managerSave .products p { r with stock := r.stock - q }).wp (undisturbed i) Q E s := by
  have hview : (s.store.view i .products).lookup p = some r := by rw [hsolo.view, hr]
  refine (Prog.wp_bind _ _ _ _ _).mpr (serve_findOne (fun _ _ h => h.fault) hsolo.isAborted _ p ?_)
  rw [hview]
  have hne : r ≠ { r with stock := r.stock - q } := by
    intro heq
    have := congrArg Product.stock heq
    dsimp only at this
    omega
  simp only [Option.map_some, Option.some.injEq, if_neg hne, writeEntity]
  refine (Prog.wp_bind _ _ _ _ _).mpr (serve_sql ?_)
  intro c hc
  have hset : saveColumns .products { r with stock := r.stock - q } r c.sql.now r =
      { r with stock := r.stock - q, updatedAt := c.sql.now } := by
    simp [saveColumns, column_self, updateDate]
  have hdistinct : Distinct (T.replay ws) := by
    rw [← hsolo.view]
    exact hcoherent.distinctView i
  have hallow : allow (T.replay ws) .products p
      (saveColumns .products { r with stock := r.stock - q } r c.sql.now r) = .ok () := by
    rw [hset]
    exact allow_intro (hcheck c.sql.now) (keyTaken_product hdistinct hr rfl)
      (by simp [refsExist, foreignKeys])
  obtain ⟨store, he, hsolo'⟩ := hsolo.exec_update hc.fault hr hallow
  refine ⟨_, _, he, hQ _ c.sql.now store (hcoherent.exec he) ?_⟩
  rwa [hset] at hsolo'

theorem serve_sell {ws : List (Write schema)} {p : Uuid} {r r' : Product} {before : Nat}
    (hcoherent : s.store.Coherent) (hsolo : s.store.Solo i T ws)
    (hfilled : Filled T o order lines (T.replay ws)) (hq : 1 ≤ line.quantity)
    (hprice : numeric12 line.priceSnapshot = none) (hp : uuidIn line.productId = some p)
    (hr : (T .products).lookup p = some r) (hrow : (T.replay ws .products).lookup p = some r')
    (hr' : r' = { r with stock := r.stock - demand lines p, updatedAt := before })
    (htypes : schema.check .products r = none) (hnonneg : 0 ≤ demand lines p)
    (hle : demand lines p + line.quantity ≤ r.stock) :
    (do
      let _ ← managerSave .products p { r' with stock := r'.stock - line.quantity }
      insert .orderItems none (orderItem o p line) : App (Uuid × OrderItem)).wp (undisturbed i)
      (fun _ => Filling T o order i (lines ++ [line])) (fun _ _ => False) s := by
  have hcheck := check_product.mp htypes
  have hbounds := int4_iff.mp hcheck.2.2.2
  have hleft : r'.stock - line.quantity = r.stock - demand (lines ++ [line]) p := by
    rw [hr', demand_append, demand_single, amount_self hp]
    ring
  refine (Prog.wp_bind _ _ _ _ _).mpr (serve_managerSave hq hcoherent hsolo hrow ?_ ?_)
  · intro now
    refine check_product.mpr ?_
    rw [hr']
    refine ⟨hcheck.1, hcheck.2.1, hcheck.2.2.1, int4_iff.mpr ?_⟩
    dsimp only
    omega
  · intro _ now store hcoherent hsolo
    have hview : T.replay (ws ++ [⟨.products, p, some { r' with
        stock := r'.stock - line.quantity, updatedAt := now }⟩]) =
        (T.replay ws).write ⟨.products, p, some { r with
          stock := r.stock - demand (lines ++ [line]) p, updatedAt := now }⟩ := by
      rw [Tables.replay_append, Tables.replay_single, hleft, hr']
    refine serve_sql ?_
    intro c hc
    have hnew : (T.replay ws .orderItems).lookup c.sql.id = none := by
      have hfresh := hc.fresh .orderItems _ rfl
      rwa [hsolo.view, hview, Tables.write_other_table _ (by simp)] at hfresh
    have hthere : ((T.replay ws .orders).lookup o).isSome = true := by
      rw [hfilled.orders, AList.lookup_insert]
      rfl
    have hallow : allow (T.replay (ws ++ [⟨.products, p, some { r' with
        stock := r'.stock - line.quantity, updatedAt := now }⟩])) .orderItems c.sql.id
        (orderItem o p line c.sql.now) = .ok () := by
      refine allow_intro (check_orderItem.mpr ⟨int4_iff.mpr ?_, ?_⟩) ?_ ?_
      · simp only [orderItem]
        omega
      · simpa [orderItem, numeric12, numeric_numeric] using hprice
      · simp [keyTaken, uniqueKeys]
      · rw [hview]
        simpa [refsExist, foreignKeys, orderItem, Tables.write_other_table] using hthere
    obtain ⟨store', he, hinserted⟩ := hsolo.exec_insert (g := none) hc.fault
      (by rwa [hview, Tables.write_other_table _ (by simp)]) hallow
    refine ⟨_, _, he, hcoherent.exec he, _, hinserted, ?_⟩
    rw [Tables.replay_append, hview, Tables.replay_single]
    exact hfilled.sell hp hr hle hnew rfl rfl rfl

theorem serve_createItem (h : Filling T o order i lines s)
    (htypes : ∀ t id r, (T t).lookup id = some r → schema.check t r = none)
    (hlines : ∀ l ∈ lines, 1 ≤ l.quantity) (hq : 1 ≤ line.quantity)
    (hprice : numeric12 line.priceSnapshot = none) :
    (createItem o line).wp (undisturbed i) (fun _ => Filling T o order i (lines ++ [line]))
      (fun e s' => Refused T e s' ∧ ¬ Available T (lines ++ [line])) s := by
  obtain ⟨ws, hsolo, hfilled⟩ := h.view
  refine (Prog.wp_bind _ _ _ _ _).mpr ?_
  unfold findOneForUpdate
  cases hp : uuidIn line.productId with
  | none =>
    refine (Prog.wp_bind _ _ _ _ _).mpr (serve_sql ?_)
    intro c hc
    refine ⟨_, _, Store.exec_malformed hc.fault hsolo.isAborted _, ⟨?_, rfl⟩, ?_⟩
    · exact (Store.abort_tables _ _).trans hsolo.tables
    · intro havailable
      obtain ⟨p, _, hp', _⟩ := havailable.last
      rw [hp] at hp'
      cases hp'
  | some p =>
    have hlast : Available T (lines ++ [line]) → ∃ r, (T .products).lookup p = some r ∧
        demand lines p + line.quantity ≤ r.stock := by
      intro havailable
      obtain ⟨p', r, hp', hr, hle⟩ := havailable.last
      obtain rfl := Option.some.inj (hp.symm.trans hp')
      exact ⟨r, hr, hle⟩
    refine (Prog.wp_bind _ _ _ _ _).mpr (serve_sql ?_)
    intro c hc
    obtain ⟨store, he, hlocked⟩ := hsolo.exec_lock hc.fault .products p
    refine ⟨_, store, he, ?_⟩
    cases hrow : (T.replay ws .products).lookup p with
    | none =>
      refine ⟨⟨hlocked.tables, rfl⟩, ?_⟩
      intro havailable
      obtain ⟨r, hr, _⟩ := hlast havailable
      rw [hfilled.missing hrow] at hr
      cases hr
    | some r' =>
      obtain ⟨r, before, hr, hr'⟩ := hfilled.present hrow
      have hstock : r'.stock = r.stock - demand lines p := by rw [hr']
      simp only [Prog.Outcome, Option.map_some, Prog.pure_eq, Prog.wp_ret]
      rw [if_neg (by omega)]
      by_cases hshort : r'.stock < line.quantity
      · rw [if_pos hshort]
        refine ⟨⟨hlocked.tables, rfl⟩, ?_⟩
        intro havailable
        obtain ⟨q, hq', hle⟩ := hlast havailable
        obtain rfl := Option.some.inj (hr.symm.trans hq')
        omega
      · rw [if_neg hshort]
        refine Prog.wp_mono (serve_sell (h.coherent.exec he) hlocked hfilled hq hprice hp hr hrow
          hr' (htypes _ _ _ hr) (demand_nonneg hlines p) (by omega)) (fun _ _ h => h) ?_
        exact fun _ _ h => h.elim

/-- The loop sells all the lines, or it fails on one that cannot be sold. -/
theorem serve_createItems (more : List CreateOrderItem) (h : Filling T o order i lines s)
    (htypes : ∀ t id r, (T t).lookup id = some r → schema.check t r = none)
    (hq : ∀ l ∈ lines ++ more, 1 ≤ l.quantity)
    (hprice : ∀ l ∈ more, numeric12 l.priceSnapshot = none) :
    (createItems o more).wp (undisturbed i) (fun _ => Filling T o order i (lines ++ more))
      (fun e s' => Refused T e s' ∧ ¬ Available T (lines ++ more)) s := by
  induction more generalizing lines s with
  | nil => simpa [createItems] using h
  | cons line more ih =>
    have hlines : ∀ l ∈ lines, 1 ≤ l.quantity := fun l hl => hq l (by simp [hl])
    have hmore : ∀ l ∈ more, 1 ≤ l.quantity := fun l hl => hq l (by simp [hl])
    have hassoc : lines ++ line :: more = lines ++ [line] ++ more := by simp
    refine (Prog.wp_bind _ _ _ _ _).mpr ?_
    refine Prog.wp_mono (serve_createItem h htypes hlines (hq line (by simp))
      (hprice line List.mem_cons_self)) ?_ ?_
    · intro savedItem s' hs'
      refine (Prog.wp_bind _ _ _ _ _).mpr ?_
      rw [hassoc] at hq ⊢
      exact ih hs' hq (fun l hl => hprice l (List.mem_cons_of_mem _ hl))
    · rintro e s' ⟨hrefused, hnot⟩
      refine ⟨hrefused, ?_⟩
      intro havailable
      rw [hassoc] at havailable
      exact hnot (havailable.first hmore)

end Loop

structure Placed (T : Database) (userId : Uuid) (lines : List CreateOrderItem)
    (order : OrderEntity) (V : Database) : Prop where
  isNew : (T .orders).lookup order.id = none
  orders : V .orders = (T .orders).insert order.id order.row
  user : order.row.userId = userId
  status : order.row.status = .pending
  key : order.row.idempotencyKey = none
  sold : ∀ p r, (T .products).lookup p = some r → ∃ now, (V .products).lookup p =
    some { r with stock := r.stock - demand lines p, updatedAt := now }
  others : ∀ p, Unlisted lines p → (V .products).lookup p = (T .products).lookup p
  items : (((V .orderItems).entries.filter (fun e => e.2.orderId = order.id)).map
    (fun e => (some e.2.productId, e.2.quantity))).Perm
      (lines.map (fun line => (uuidIn line.productId, line.quantity)))
  rest : (V .orderItems).entries.filter (fun e => e.2.orderId ≠ order.id) =
    (T .orderItems).entries
  users : V .users = T .users
  messages : V .processedMessages = T .processedMessages

/-- Items of other orders do not refer to a new one. -/
theorem Filled.placed {T V : Database} {o u : Uuid} {row : Order} {lines : List CreateOrderItem}
    {items : List (Uuid × OrderItem)} (h : Filled T o row lines V)
    (hT : Closed (S := schema) T) (hnew : (T .orders).lookup o = none) (huser : row.userId = u)
    (hstatus : row.status = .pending) (hkey : row.idempotencyKey = none) :
    Placed T u lines ⟨o, row, items⟩ V := by
  obtain ⟨news, hentries, hids, hlines⟩ := h.items
  have hold : ∀ e ∈ (T .orderItems).entries, e.2.orderId ≠ o := by
    intro e he heq
    have hthere := refsExist_iff.mp (hT .orderItems e.1 e.2 (AList.mem_lookup_iff.mpr he))
      (.orders, e.2.orderId) (by simp [foreignKeys])
    rw [heq, hnew] at hthere
    cases hthere
  refine ⟨hnew, h.orders, huser, hstatus, hkey, h.sold, h.others, ?_, ?_, h.users, h.messages⟩
  · have hfilter : (V .orderItems).entries.filter (fun e => e.2.orderId = o) = news := by
      rw [hentries, List.filter_append, List.filter_eq_self.mpr (by simpa using hids),
        List.filter_eq_nil_iff.mpr (by simpa using hold), List.append_nil]
    rw [hfilter, hlines, List.map_reverse]
    exact List.reverse_perm _
  · rw [hentries, List.filter_append, List.filter_eq_nil_iff.mpr (by simpa using hids),
      List.filter_eq_self.mpr (by simpa using hold), List.nil_append]

section Create

variable {s : AppState} {i : Nat} {T : Database} {dto : CreateOrderDto} {u : Uuid}

theorem serve_createInTransaction (hcoherent : s.store.Coherent) (hsolo : s.store.Solo i T [])
    (htypes : ∀ t id r, (T t).lookup id = some r → schema.check t r = none)
    (hrefs : Closed (S := schema) T) (huser : ((T .users).lookup u).isSome = true)
    (hq : ∀ line ∈ dto.items, 1 ≤ line.quantity)
    (hprice : ∀ line ∈ dto.items, numeric12 line.priceSnapshot = none) :
    (createInTransaction dto u none).wp (undisturbed i)
      (fun order s' => Available T dto.items ∧ order.row.createdAt ≤ maxTime ∧
        Placed T u dto.items order s'.store.tables)
      (fun e s' => Refused T e s' ∧ ¬ Available T dto.items) s := by
  refine (Prog.wp_bind _ _ _ _ _).mpr (serve_sql ?_)
  intro c hc
  have hnew : (T .orders).lookup c.sql.id = none := by
    have hfresh := hc.fresh .orders _ rfl
    rwa [hsolo.view] at hfresh
  obtain ⟨store, he, hopened⟩ := hsolo.exec_insert (g := none)
    (r := fun now => ({ userId := u, status := .pending, idempotencyKey := none, createdAt := now
                        updatedAt := now, processedAt := none } : Order)) hc.fault hnew
    (allow_intro rfl (by simp [keyTaken, uniqueKeys])
      (by simpa [refsExist, foreignKeys] using huser))
  simp only [Option.getD_none] at he hopened
  refine ⟨_, store, he, (Prog.wp_bind _ _ _ _ _).mpr ?_⟩
  have hbegin : Filling T c.sql.id _ i [] { s with store } :=
    ⟨hcoherent.exec he, _, hopened, .begin T c.sql.id _⟩
  refine Prog.wp_mono (serve_createItems dto.items hbegin htypes hq hprice) ?_ (fun _ _ h => h)
  intro _ s₁ hfilling
  obtain ⟨ws, hsolo₁, hfilled⟩ := hfilling.view
  refine (Prog.wp_bind _ _ _ _ _).mpr ?_
  unfold findOrderWithItems
  refine (Prog.wp_bind _ _ _ _ _).mpr
    (serve_findOne (fun _ _ h => h.fault) hsolo₁.isAborted .orders c.sql.id ?_)
  rw [hsolo₁.view, hfilled.orders, AList.lookup_insert]
  refine (Prog.wp_bind _ _ _ _ _).mpr
    (serve_find (fun _ _ h => h.fault) hsolo₁.isAborted .orderItems _ ?_)
  refine (Prog.wp_bind _ _ _ _ _).mpr (serve_sql ?_)
  intro c' hc'
  obtain ⟨store', he', htables⟩ := hsolo₁.exec_commit hc'.fault
  refine ⟨_, store', he', hfilled.available, hc.clock, ?_⟩
  rw [htables]
  exact hfilled.placed hrefs hnew rfl rfl rfl

theorem serve_createFailed {e : Thrown} (hs : Refused T e s) :
    (createFailed none e).wp (undisturbed i) (fun _ _ => False)
      (fun _ s' => s'.store.tables = T) s := by
  refine (Prog.wp_bind _ _ _ _ _).mpr (serve_sql ?_)
  intro c hc
  refine ⟨.ok (), s.store.close i, by simp [Store.exec, hc.fault], ?_⟩
  simp only [Prog.Outcome, hs.2]
  exact hs.1

theorem exec_sendToQueue_open {c : AppChoice} (hc : c.send ≠ .closed) (m : Published) :
    ∃ sent s', s.exec i c (.sendToQueue m) = some (.ok sent, s') ∧ s'.store = s.store := by
  cases hsend : c.send with
  | accepted => exact ⟨true, s.handOver i m, by simp [AppState.exec, hsend], rfl⟩
  | buffered => exact ⟨false, s.handOver i m, by simp [AppState.exec, hsend], rfl⟩
  | refused => exact ⟨false, s, by simp [AppState.exec, hsend], rfl⟩
  | closed => exact absurd hsend hc

theorem serve_publishOrderCreated {order : OrderEntity} (hdate : order.row.createdAt ≤ maxTime)
    {Q : Unit → AppState → Prop} {E : Thrown → AppState → Prop}
    (hQ : ∀ s', s'.store = s.store → Q () s') :
    (publishOrderCreated order).wp (undisturbed i) Q E s := by
  have hiso : (toISOString order.row.createdAt).isSome = true := by simp [toISOString, hdate]
  obtain ⟨createdAt, hcreatedAt⟩ := Option.isSome_iff_exists.mp hiso
  refine (Prog.wp_bind _ _ _ _ _).mpr (Prog.wp_unblocked ?_)
  intro c hc
  refine ⟨.ok c.uuid, s, rfl, ?_⟩
  simp only [Prog.Outcome, hcreatedAt]
  refine (Prog.wp_bind _ _ _ _ _).mpr ((Prog.wp_bind _ _ _ _ _).mpr (Prog.wp_unblocked ?_))
  intro c' hc'
  refine ⟨.ok s.channelReady, s, rfl, ?_⟩
  simp only [Prog.Outcome]
  split
  · refine Prog.wp_unblocked ?_
    intro c'' hc''
    obtain ⟨sent, s', he, hstore⟩ := exec_sendToQueue_open hc''.channel _
    exact ⟨.ok sent, s', he, hQ s' hstore⟩
  · exact hQ s rfl

/-- Run alone and without failures, a call without a key is never blocked. It
returns if every listed product exists and has the stock for all of its lines
together, and it has then sold them under one new order; else it throws and
has changed nothing. -/
theorem create_meets_spec {s : AppState} (hs : Valid s) (i : Nat) {dto : CreateOrderDto}
    {idempotencyKey : Option String} (hkey : effectiveKey dto idempotencyKey = none) {u : Uuid}
    (hu : uuidIn dto.userId = some u) (huser : ((s.store.tables .users).lookup u).isSome = true)
    (hne : dto.items ≠ []) (hq : ∀ line ∈ dto.items, 1 ≤ line.quantity)
    (hprice : ∀ line ∈ dto.items, numeric12 line.priceSnapshot = none) :
    (create dto idempotencyKey).wp (undisturbed i)
      (fun a s' => Available s.store.tables dto.items ∧ a.wasDuplicate = false ∧
        Placed s.store.tables u dto.items a.order s'.store.tables)
      (fun _ s' => ¬ Available s.store.tables dto.items ∧ s'.store.tables = s.store.tables) s := by
  have haborted : s.store.isAborted i = false := by simp [Store.isAborted, hs.tx]
  have hempty : dto.items.isEmpty = false := by simpa using hne
  obtain ⟨user, hrow⟩ := Option.isSome_iff_exists.mp huser
  refine (Prog.wp_bind _ _ _ _ _).mpr ?_
  rw [hkey]
  simp only [findByKey, truthy, Option.filter_none, Prog.pure_eq, Prog.wp_ret, hempty,
    Bool.false_eq_true, if_false, findOneById, hu]
  refine (Prog.wp_bind _ _ _ _ _).mpr (serve_findOne (fun _ _ h => h.fault) haborted .users u ?_)
  rw [Store.view_none (hs.tx i), hrow]
  refine (Prog.wp_bind _ _ _ _ _).mpr (serve_sql ?_)
  intro c hc
  obtain ⟨store, he, hsolo⟩ := Store.exec_start_solo hs.coherent hs.tx hc.fault
  refine ⟨_, store, he, (Prog.wp_bind _ _ _ _ _).mpr ((Prog.wp_tryCatch _ _ _ _ _).mpr ?_)⟩
  refine (Prog.wp_bind _ _ _ _ _).mpr ?_
  refine Prog.wp_mono (serve_createInTransaction (hs.coherent.exec he) hsolo hs.types hs.refs
    huser hq hprice) ?_ ?_
  · rintro order s' ⟨havailable, hdate, hplaced⟩
    refine (Prog.wp_bind _ _ _ _ _).mpr (serve_publishOrderCreated hdate ?_)
    intro s'' hstore
    refine ⟨havailable, rfl, ?_⟩
    rw [hstore]
    exact hplaced
  · rintro e s' ⟨hrefused, hnot⟩
    refine (Prog.wp_bind _ _ _ _ _).mpr ?_
    refine Prog.wp_mono (serve_createFailed hrefused) (fun _ _ h => h.elim) ?_
    exact fun _ _ htables => ⟨hnot, htables⟩

end Create

theorem penShop_valid : Valid (serving (penShop 5)) where
  tx _ := rfl
  owner _ := rfl
  unique := penShop_distinct 5
  types t id r hr := by
    have hmem := AList.mem_lookup_iff.mp hr
    cases t with
    | users =>
      obtain ⟨rfl, h⟩ := Sigma.mk.inj (List.mem_singleton.mp hmem)
      obtain rfl := eq_of_heq h
      decide +kernel
    | products =>
      obtain ⟨rfl, h⟩ := Sigma.mk.inj (List.mem_singleton.mp hmem)
      obtain rfl := eq_of_heq h
      decide +kernel
    | orders | orderItems | processedMessages => cases hmem
  refs t id r hr := by
    have hmem := AList.mem_lookup_iff.mp hr
    cases t with
    | users | products => rfl
    | orders | orderItems | processedMessages => cases hmem

def twoLines : CreateOrderDto where
  userId := uuidOut 1
  idempotencyKey := none
  items := [⟨uuidOut 2, 2, 3⟩, ⟨uuidOut 2, 3, 3⟩]

theorem create_meets_spec_twoLines :
    Available (penShop 5) twoLines.items ∧ (create twoLines none).wp (undisturbed 0)
      (fun a s' => Available (penShop 5) twoLines.items ∧ a.wasDuplicate = false ∧
        Placed (penShop 5) 1 twoLines.items a.order s'.store.tables)
      (fun _ s' => ¬ Available (penShop 5) twoLines.items ∧ s'.store.tables = penShop 5)
      (serving (penShop 5)) := by
  have hp : uuidIn (uuidOut 2) = some 2 := uuidIn_uuidOut 2
  have hdemand : demand twoLines.items 2 = 5 := by
    have hamount : ∀ q, (⟨uuidOut 2, q, 3⟩ : CreateOrderItem).amount 2 = q :=
      fun q => amount_self hp
    simp only [twoLines, demand_cons, hamount]
    rfl
  constructor
  · intro line hline
    refine ⟨2, _, ?_, rfl, hdemand.le⟩
    simp only [twoLines, List.mem_cons, List.not_mem_nil, or_false] at hline
    rcases hline with rfl | rfl <;> exact hp
  · have hspec := @create_meets_spec _ penShop_valid 0 twoLines none rfl 1 (uuidIn_uuidOut 1) rfl
      (by simp [twoLines]) (by simp [twoLines]) (by decide +kernel)
    exact hspec

/-- In a run without failures of the database the call succeeds if and only if
the stock covers the lines, whatever the prices and the rest of the environment. -/
def SucceedsIfAvailable (fits : CreateOrderItem → Prop) (brings : AppChoice → Prop) : Prop :=
  ∀ s, Valid s → ∀ (dto : CreateOrderDto) (u : Uuid), uuidIn dto.userId = some u →
    ((s.store.tables .users).lookup u).isSome = true → dto.items ≠ [] →
    (∀ line ∈ dto.items, 1 ≤ line.quantity ∧ fits line) → dto.idempotencyKey = none →
    ∀ i chs r s', (∀ c ∈ chs, c.sql.fault = false ∧ brings c) →
      (create dto none).eval app i s chs = some (r, s') →
      ((∃ a, r = .ok a) ↔ Available s.store.tables dto.items)

def onePen (priceSnapshot : ℚ) : CreateOrderDto where
  userId := uuidOut 1
  idempotencyKey := none
  items := [⟨uuidOut 2, 1, priceSnapshot⟩]

theorem onePen_available (price : ℚ) : Available (penShop 5) (onePen price).items := by
  intro line hline
  obtain rfl := List.mem_singleton.mp hline
  refine ⟨2, _, uuidIn_uuidOut 2, rfl, ?_⟩
  rw [onePen, demand_single, amount_self (uuidIn_uuidOut 2)]
  exact (by decide : (1 : Int) ≤ 5)

theorem not_succeedsIfAvailable {fits : CreateOrderItem → Prop} {brings : AppChoice → Prop}
    (price : ℚ) (c : AppChoice) (n : Nat) (hfits : ∀ line ∈ (onePen price).items, fits line)
    (hfault : c.sql.fault = false) (hbrings : brings c)
    (h : ((create (onePen price) none).eval app 0 (serving (penShop 5))
      (List.replicate n c)).map (fun d => d.1.isOk) = some false) :
    ¬ SucceedsIfAvailable fits brings := by
  intro hall
  obtain ⟨⟨r, s'⟩, hrun, hr⟩ := Option.map_eq_some_iff.mp h
  have hiff := hall _ penShop_valid (onePen price) 1 (uuidIn_uuidOut 1) rfl (by simp [onePen]) ?_
    rfl 0 _ r s' ?_ hrun
  · obtain ⟨a, rfl⟩ := hiff.mpr (onePen_available price)
    cases hr
  · intro line hline
    refine ⟨?_, hfits line hline⟩
    obtain rfl := List.mem_singleton.mp hline
    exact le_refl 1
  · intro c' hc'
    obtain rfl := List.eq_of_mem_replicate hc'
    exact ⟨hfault, hbrings⟩

/-- A price with eleven digits, a closed channel or a clock past the last date
each make a call fail whose lines the stock covers. -/
theorem create_refuses_available :
    ¬ SucceedsIfAvailable (fun _ => True) (fun c => c.send ≠ .closed ∧ c.sql.now ≤ maxTime) ∧
    ¬ SucceedsIfAvailable (fun line => numeric12 line.priceSnapshot = none)
      (fun c => c.sql.now ≤ maxTime) ∧
    ¬ SucceedsIfAvailable (fun line => numeric12 line.priceSnapshot = none)
      (fun c => c.send ≠ .closed) := by
  refine ⟨?_, ?_, ?_⟩
  · exact not_succeedsIfAvailable (10 ^ 10) (tick 3) 8 (fun _ _ => trivial)
      rfl (by decide) (by decide +kernel)
  · exact not_succeedsIfAvailable 3 (cut 3) 13 (by decide +kernel) rfl
      (by decide) (by decide +kernel)
  · exact not_succeedsIfAvailable 3 ⟨⟨false, 3, maxTime + 1⟩, .accepted, 3, 0⟩ 11
      (by decide +kernel) rfl (by decide) (by decide +kernel)

end Ecomm
