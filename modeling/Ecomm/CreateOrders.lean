import Ecomm.OrdersService
import Ecomm.Rules

/-! What a thread that runs `create` does to stock and orders: until it commits
it keeps an account of what it took from each product and what its order items
say, and it commits only when the two agree. -/

namespace Ecomm

open Concurrent Sql

structure CreateCall where
  dto : CreateOrderDto
  idempotencyKey : Option String

namespace CreateCall

instance : Inhabited CreateCall := ⟨⟨⟨"", none, []⟩, none⟩⟩

def key (c : CreateCall) : Option String := effectiveKey c.dto c.idempotencyKey

def program (c : CreateCall) : App CreateResult := create c.dto c.idempotencyKey

end CreateCall

def stock (T : Database) (p : Uuid) : Int := ((T .products).lookup p).elim 0 (·.stock)

def itemQuantity (p : Uuid) (r : OrderItem) : Int := if r.productId = p then r.quantity else 0

/-- Sum of the quantities of the order items of a product. -/
def sold (T : Database) (p : Uuid) : Int := T.tally .orderItems (itemQuantity p)

def CreateOrderItem.amount (item : CreateOrderItem) (p : Uuid) : Int :=
  if uuidIn item.productId = some p then item.quantity else 0

def demand (items : List CreateOrderItem) (p : Uuid) : Int := (items.map (·.amount p)).sum

/-- The account of an open transaction that has inserted order `o`. -/
structure Account (key : Option String) (o : Uuid) (taken items : Uuid → Int)
    (g : Session schema) : Prop where
  isOpen : g.tx = some ⟨g.writes, false⟩
  isNew : g.base .orders o = some none
  order : ∃ row : Order, g.seen .orders o = some (some row) ∧ row.idempotencyKey = key
  orders : ∀ w ∈ g.writes, w.table = .orders → w.id = o
  written : ∃ w ∈ g.writes, w.table = .orders
  product : ∀ p b, g.base .products p = some b → ∃ r r' : Product, b = some r ∧
    g.seen .products p = some (some r') ∧ r'.stock = r.stock - taken p ∧
    (0 ≤ r.stock → 0 ≤ r'.stock)
  untouched : ∀ p, g.base .products p = none → taken p = 0
  sold : ∀ p, pending (S := schema) Table.orderItems (itemQuantity p) g.writes = items p
  item : ∀ j b, g.base .orderItems j = some b →
    b = none ∧ ∃ r, g.seen .orderItems j = some (some r)
  fresh : ∀ w ∈ g.writes, w.table = .orderItems → w.row.isSome ∧ g.base .orderItems w.id ≠ none
  nodup : ((g.writes.filter (fun w => w.table = .orderItems)).map (·.id)).Nodup

namespace Account

variable {key : Option String} {o : Uuid} {taken items : Uuid → Int} {g : Session schema}

theorem opened (o : Uuid) (row : Order) :
    Account row.idempotencyKey o (fun _ => 0) (fun _ => 0)
      (Session.opened.put .orders o none row) := by
  have hx : (Session.opened : Session schema).tx = some ⟨[], false⟩ := rfl
  have hws : (Session.opened.put .orders o none row : Session schema).writes =
    [⟨.orders, o, some row⟩] := Session.put_writes hx
  constructor
  case isOpen =>
    rw [Session.put_tx hx, hws]
    rfl
  case isNew =>
    rw [Session.put_base_self hx]
    rfl
  case order => exact ⟨row, Session.put_seen_self hx, rfl⟩
  case orders => simp [hws]
  case written => exact ⟨_, by rw [hws]; exact List.mem_singleton_self _, rfl⟩
  case product =>
    intro p b hb
    rw [Session.put_base_other hx (by simp)] at hb
    cases hb
  case untouched =>
    intro p _
    rfl
  case sold =>
    intro p
    rw [hws, pending_single_other (by simp)]
  case item =>
    intro j b hb
    rw [Session.put_base_other hx (by simp)] at hb
    cases hb
  case fresh => simp [hws]
  case nodup => simp [hws]

theorem lock (h : Account key o taken items g) {p : Uuid} {r : Product}
    (hr : ∀ b, g.seen .products p = some b → b = some r) :
    Account key o taken items (g.lock .products p r) where
  isOpen := by
    rw [Session.lock_tx, Session.lock_writes]
    exact h.isOpen
  isNew := by
    rw [Session.lock_base_other (by simp)]
    exact h.isNew
  order := by
    rw [Session.lock_seen_other (by simp)]
    exact h.order
  orders := by simpa using h.orders
  written := by simpa using h.written
  product q b hb := by
    by_cases hq : q = p
    · subst hq
      rw [Session.lock_base_self h.isOpen] at hb
      rw [Session.lock_seen_self h.isOpen]
      cases hbase : g.base .products q with
      | none =>
        simp only [hbase, Option.getD_none, Option.some.injEq] at hb
        exact ⟨r, r, hb.symm, rfl, by rw [h.untouched q hbase, sub_zero], id⟩
      | some b' =>
        obtain ⟨q₀, q₁, rfl, hseen, hstock, hpos⟩ := h.product q b' hbase
        obtain rfl := Option.some.inj (hr _ hseen)
        simp only [hbase, Option.getD_some, Option.some.injEq] at hb
        exact ⟨q₀, q₁, hb.symm, rfl, hstock, hpos⟩
    · rw [Session.lock_base_other (by simp [hq])] at hb
      rw [Session.lock_seen_other (by simp [hq])]
      exact h.product q b hb
  untouched q hq := by
    by_cases hqp : q = p
    · subst hqp
      rw [Session.lock_base_self h.isOpen] at hq
      cases hq
    · rw [Session.lock_base_other (by simp [hqp])] at hq
      exact h.untouched q hq
  sold := by simpa using h.sold
  item j b hb := by
    rw [Session.lock_base_other (by simp)] at hb
    rw [Session.lock_seen_other (by simp)]
    exact h.item j b hb
  fresh w hw ht := by
    rw [Session.lock_base_other (by simp)]
    exact h.fresh w (by simpa using hw) ht
  nodup := by simpa using h.nodup

theorem take (h : Account key o taken items g) {p : Uuid} {r : Product} (r' : Product) {q : Int}
    (hseen : g.seen .products p = some (some r)) (hstock : r'.stock = r.stock - q)
    (hq : q ≤ r.stock) :
    Account key o (fun j => taken j + if j = p then q else 0) items
      (g.put .products p (some r) r') := by
  have hws : (g.put .products p (some r) r').writes = g.writes ++ [⟨.products, p, some r'⟩] :=
    Session.put_writes h.isOpen
  constructor
  case isOpen => rw [Session.put_tx h.isOpen, hws]
  case isNew =>
    rw [Session.put_base_other h.isOpen (by simp)]
    exact h.isNew
  case order =>
    rw [Session.put_seen_other h.isOpen (by simp)]
    exact h.order
  case orders =>
    intro w hw ht
    rw [hws] at hw
    rcases List.mem_append.mp hw with hw | hw
    · exact h.orders w hw ht
    · obtain rfl := List.mem_singleton.mp hw
      cases ht
  case written =>
    obtain ⟨w, hw, ht⟩ := h.written
    exact ⟨w, by rw [hws]; exact List.mem_append_left _ hw, ht⟩
  case product =>
    intro j b hb
    by_cases hj : j = p
    · subst hj
      rw [Session.put_base_self h.isOpen] at hb
      rw [Session.put_seen_self h.isOpen]
      cases hbase : g.base .products j with
      | none =>
        simp only [hbase, Option.getD_none, Option.some.injEq] at hb
        refine ⟨r, r', hb.symm, rfl, ?_, fun _ => by omega⟩
        simp [hstock, h.untouched j hbase]
      | some b' =>
        obtain ⟨q₀, q₁, rfl, hseen', hold, hpos⟩ := h.product j b' hbase
        obtain rfl : q₁ = r := by simpa [hseen'] using hseen
        simp only [hbase, Option.getD_some, Option.some.injEq] at hb
        refine ⟨q₀, r', hb.symm, rfl, ?_, fun _ => by omega⟩
        simp only [if_true]
        omega
    · rw [Session.put_base_other h.isOpen (by simp [hj])] at hb
      rw [Session.put_seen_other h.isOpen (by simp [hj])]
      simpa [hj] using h.product j b hb
  case untouched =>
    intro j hj
    by_cases hjp : j = p
    · subst hjp
      rw [Session.put_base_self h.isOpen] at hj
      cases hj
    · rw [Session.put_base_other h.isOpen (by simp [hjp])] at hj
      simp [hjp, h.untouched j hj]
  case sold =>
    intro j
    rw [hws, pending_append, pending_single_other (by simp), add_zero]
    exact h.sold j
  case item =>
    intro j b hb
    rw [Session.put_base_other h.isOpen (by simp)] at hb
    rw [Session.put_seen_other h.isOpen (by simp)]
    exact h.item j b hb
  case fresh =>
    intro w hw ht
    rw [hws] at hw
    rw [Session.put_base_other h.isOpen (by simp)]
    rcases List.mem_append.mp hw with hw | hw
    · exact h.fresh w hw ht
    · obtain rfl := List.mem_singleton.mp hw
      cases ht
  case nodup =>
    rw [hws, List.filter_append]
    simpa using h.nodup

theorem addItem (h : Account key o taken items g) {j : Uuid} (row : OrderItem)
    (hj : ∀ b, g.seen .orderItems j = some b → b = none) :
    Account key o taken (fun p => items p + itemQuantity p row)
      (g.put .orderItems j none row) := by
  have hws : (g.put .orderItems j none row).writes = g.writes ++ [⟨.orderItems, j, some row⟩] :=
    Session.put_writes h.isOpen
  have hbase : g.base .orderItems j = none := by
    cases hb : g.base .orderItems j with
    | none => rfl
    | some b =>
      obtain ⟨_, r, hr⟩ := h.item j b hb
      cases hj _ hr
  have hother : ∀ w ∈ g.writes, w.table = .orderItems → w.id ≠ j := by
    rintro w hw ht rfl
    exact (h.fresh w hw ht).2 hbase
  constructor
  case isOpen => rw [Session.put_tx h.isOpen, hws]
  case isNew =>
    rw [Session.put_base_other h.isOpen (by simp)]
    exact h.isNew
  case order =>
    rw [Session.put_seen_other h.isOpen (by simp)]
    exact h.order
  case orders =>
    intro w hw ht
    rw [hws] at hw
    rcases List.mem_append.mp hw with hw | hw
    · exact h.orders w hw ht
    · obtain rfl := List.mem_singleton.mp hw
      cases ht
  case written =>
    obtain ⟨w, hw, ht⟩ := h.written
    exact ⟨w, by rw [hws]; exact List.mem_append_left _ hw, ht⟩
  case product =>
    intro p b hb
    rw [Session.put_base_other h.isOpen (by simp)] at hb
    rw [Session.put_seen_other h.isOpen (by simp)]
    exact h.product p b hb
  case untouched =>
    intro p hp
    rw [Session.put_base_other h.isOpen (by simp)] at hp
    exact h.untouched p hp
  case sold =>
    intro p
    rw [hws, pending_append, pending_single, h.sold p]
  case item =>
    intro i b hb
    by_cases hij : i = j
    · subst hij
      rw [Session.put_base_self h.isOpen, hbase] at hb
      rw [Session.put_seen_self h.isOpen]
      exact ⟨(Option.some.inj hb).symm, row, rfl⟩
    · rw [Session.put_base_other h.isOpen (by simp [hij])] at hb
      rw [Session.put_seen_other h.isOpen (by simp [hij])]
      exact h.item i b hb
  case fresh =>
    intro w hw ht
    rw [hws] at hw
    rcases List.mem_append.mp hw with hw | hw
    · rw [Session.put_base_other h.isOpen (by simp [hother w hw ht])]
      exact h.fresh w hw ht
    · obtain rfl := List.mem_singleton.mp hw
      rw [Session.put_base_self h.isOpen]
      exact ⟨rfl, by simp⟩
  case nodup =>
    rw [hws, List.filter_append, List.map_append]
    refine h.nodup.append (by simp) ?_
    intro i hi hmem
    obtain ⟨w, hw, rfl⟩ := List.mem_map.mp hi
    obtain ⟨hw, ht⟩ := List.mem_filter.mp hw
    exact hother w hw (by simpa using ht) (by simpa using hmem)

end Account

end Ecomm
