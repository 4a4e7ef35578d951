import Ecomm.Lib.Store
import Ecomm.Uuid
import Mathlib.Algebra.Order.Round
import Mathlib.Data.Rat.Floor

/-! The tables of the application as its migrations create them: columns,
column types, unique indexes and foreign keys. -/

namespace Ecomm

inductive OrderStatus where
  | created
  | pending
  | processed
  | paid
  | cancelled
  deriving DecidableEq, Repr

structure User where
  email : String
  passwordHash : Option String := none
  roles : List String := []
  scopes : List String := []
  createdAt : Nat
  updatedAt : Nat
  deriving DecidableEq

structure Product where
  name : String
  sku : String
  description : Option String
  price : ℚ
  stock : Int
  isActive : Bool
  createdAt : Nat
  updatedAt : Nat
  deriving DecidableEq

structure Order where
  userId : Uuid
  status : OrderStatus
  idempotencyKey : Option String
  createdAt : Nat
  updatedAt : Nat
  processedAt : Option Nat
  deriving DecidableEq

structure OrderItem where
  orderId : Uuid
  productId : Uuid
  quantity : Int
  priceSnapshot : ℚ
  createdAt : Nat
  updatedAt : Nat
  deriving DecidableEq

structure ProcessedMessage where
  orderId : Uuid
  handler : Option String
  processedAt : Nat
  deriving DecidableEq

inductive Table where
  | users
  | products
  | orders
  | orderItems
  | processedMessages
  deriving DecidableEq

@[reducible] def Table.Row : Table → Type
  | users => User
  | products => Product
  | orders => Order
  | orderItems => OrderItem
  | processedMessages => ProcessedMessage

instance (t : Table) : DecidableEq t.Row :=
  match t with
  | .users => inferInstanceAs (DecidableEq User)
  | .products => inferInstanceAs (DecidableEq Product)
  | .orders => inferInstanceAs (DecidableEq Order)
  | .orderItems => inferInstanceAs (DecidableEq OrderItem)
  | .processedMessages => inferInstanceAs (DecidableEq ProcessedMessage)

/-- Entries of the unique indexes besides the primary keys. -/
inductive UniqueKey where
  | email (s : String)
  | sku (s : String)
  | idempotencyKey (s : String)
  deriving DecidableEq

def uniqueKeys : (t : Table) → t.Row → List UniqueKey
  | .users, r => [.email r.email]
  | .products, r => [.sku r.sku]
  | .orders, r => (r.idempotencyKey.map .idempotencyKey).toList
  | .orderItems, _ => []
  | .processedMessages, _ => []

/-- `numeric(12,2)` keeps two decimals and refuses ten digits before the point. -/
def numeric (x : ℚ) : ℚ := (round (x * 100) : ℚ) / 100

/-- A longer text is refused, also where the server would cut off blanks at its end. -/
def varchar (n : Nat) (s : String) : Option Sql.SqlError :=
  if n < s.length then some .tooLong else none

def int4 (x : Int) : Option Sql.SqlError :=
  if -(2 ^ 31) ≤ x ∧ x < 2 ^ 31 then none else some .outOfRange

def numeric12 (x : ℚ) : Option Sql.SqlError :=
  if |numeric x| < 10 ^ 10 then none else some .outOfRange

def columnTypes : (t : Table) → t.Row → Option Sql.SqlError
  | .users, r => varchar 320 r.email <|> r.passwordHash.bind (varchar 255)
  | .products, r => varchar 200 r.name <|> varchar 64 r.sku <|> numeric12 r.price <|> int4 r.stock
  | .orders, r => r.idempotencyKey.bind (varchar 120)
  | .orderItems, r => int4 r.quantity <|> numeric12 r.priceSnapshot
  | .processedMessages, r => r.handler.bind (varchar 120)

/-- The foreign keys of the migrations; `order_items.product_id` has none. -/
def foreignKeys : (t : Table) → t.Row → List (Table × Uuid)
  | .users, _ => []
  | .products, _ => []
  | .orders, r => [(.users, r.userId)]
  | .orderItems, r => [(.orders, r.orderId)]
  | .processedMessages, r => [(.orders, r.orderId)]

section Cascade

variable (T : (t : Table) → AList (fun _ : Uuid => t.Row))

def deleteWhere (t : Table) (cond : t.Row → Bool) : List (Σ t : Table, Uuid × Option t.Row) :=
  ((T t).entries.filter (fun e => cond e.2)).map (fun e => ⟨t, e.1, none⟩)

def ordersOf (user : Uuid) : List Uuid :=
  ((T .orders).entries.filter (fun e => e.2.userId == user)).map (·.1)

/-- Rows that `ON DELETE CASCADE` removes together with the orders. -/
def ofOrders (orders : List Uuid) : List (Σ t : Table, Uuid × Option t.Row) :=
  deleteWhere T .orderItems (fun r => r.orderId ∈ orders) ++
    deleteWhere T .processedMessages (fun r => r.orderId ∈ orders)

def cascade : Table → Uuid → List (Σ t : Table, Uuid × Option t.Row)
  | .users, id => ofOrders T (ordersOf T id) ++ deleteWhere T .orders (fun r => r.userId = id)
  | .orders, id => ofOrders T [id]
  | _, _ => []

theorem deleteWhere_none {t : Table} {cond : t.Row → Bool} :
    ∀ w ∈ deleteWhere T t cond, w.2.2 = none := by
  intro w hw
  obtain ⟨e, _, rfl⟩ := List.mem_map.mp hw
  rfl

theorem cascade_none (t : Table) (id : Uuid) : ∀ w ∈ cascade T t id, w.2.2 = none := by
  intro w hw
  cases t with
  | users =>
    simp only [cascade, ofOrders, List.mem_append] at hw
    rcases hw with (hw | hw) | hw <;> exact deleteWhere_none T w hw
  | orders =>
    rcases List.mem_append.mp hw with hw | hw <;> exact deleteWhere_none T w hw
  | products => simp [cascade] at hw
  | orderItems => simp [cascade] at hw
  | processedMessages => simp [cascade] at hw

end Cascade

abbrev schema : Sql.Schema where
  Table := Table
  Row := Table.Row
  Id := Uuid
  Key := UniqueKey
  decTable := inferInstance
  decId := inferInstance
  decKey := inferInstance
  keys := uniqueKeys
  check := columnTypes
  refs := foreignKeys
  onDelete T t id := some (cascade T t id)
  onDelete_keys T t id ws h w hw r hr := by
    obtain rfl := Option.some.inj h
    rw [cascade_none T t id w hw] at hr
    cases hr

abbrev Database := Sql.Tables schema

end Ecomm
