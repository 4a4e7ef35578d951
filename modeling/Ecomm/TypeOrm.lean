import Ecomm.App

/-! The repository calls of the services as sequences of statements. A call
runs in the open transaction of its thread when there is one. -/

namespace Ecomm

open Concurrent

def await (o : AppOp) : App o.Ans := Prog.await o

def sql (o : Sql.Op schema) : App o.Ans := await (.sql o)

def startTransaction : App Unit := sql .startTransaction
def commitTransaction : App Unit := sql .commitTransaction
def rollbackTransaction : App Unit := sql .rollbackTransaction

/-- A statement with a parameter that is no value of the column's type. -/
def reject {α : Type} (e : Sql.SqlError) : App α := do
  let x ← sql (.stmt (.malformed e))
  nomatch (show Empty from x)

def find (t : Table) (cond : Uuid → t.Row → Bool) : App (List (Uuid × t.Row)) :=
  sql (.stmt (.select t cond))

def findOne (t : Table) (cond : Uuid → t.Row → Bool) : App (Option (Uuid × t.Row)) := do
  let rows ← find t cond
  pure rows.head?

/-- `where: { id }` with an id that came as text. -/
def findOneById (t : Table) (id : String) : App (Option (Uuid × t.Row)) :=
  match uuidIn id with
  | some u => findOne t (fun j _ => j = u)
  | none => reject .invalidText

/-- `lock: { mode: 'pessimistic_write' }`. -/
def findOneForUpdate (t : Table) (id : String) : App (Option (Uuid × t.Row)) :=
  match uuidIn id with
  | some u => do
    let row ← sql (.stmt (.selectForUpdate t u))
    pure ((show Option t.Row from row).map (fun r => (u, r)))
  | none => reject .invalidText

def insert (t : Table) (id : Option Uuid) (row : Nat → t.Row) : App (Uuid × t.Row) :=
  sql (.stmt (.insert t id row))

/-- `repository.delete` answers with the number of rows that it deleted. -/
def delete (t : Table) (id : String) : App Nat :=
  match uuidIn id with
  | some u => sql (.stmt (.delete t u))
  | none => reject .invalidText

/-- A column of an entity is written when it differs from the row as re-read. -/
def column {α : Type} [DecidableEq α] (entity reread row : α) : α :=
  if entity = reread then row else entity

theorem column_self {α : Type} [DecidableEq α] (entity row : α) :
    column entity row row = entity := by
  unfold column
  split
  · next h => exact h.symm
  · rfl

/-- The update date is the server's clock unless the entity differs there too. -/
def updateDate (entity reread now : Nat) : Nat := if entity = reread then now else entity

def saveColumns : (t : Table) → (entity reread : t.Row) → Nat → t.Row → t.Row
  | .users, e, o, now, r =>
    { email := column e.email o.email r.email
      passwordHash := column e.passwordHash o.passwordHash r.passwordHash
      roles := column e.roles o.roles r.roles
      scopes := column e.scopes o.scopes r.scopes
      createdAt := column e.createdAt o.createdAt r.createdAt
      updatedAt := updateDate e.updatedAt o.updatedAt now }
  | .products, e, o, now, r =>
    { name := column e.name o.name r.name
      sku := column e.sku o.sku r.sku
      description := column e.description o.description r.description
      price := column e.price o.price r.price
      stock := column e.stock o.stock r.stock
      isActive := column e.isActive o.isActive r.isActive
      createdAt := column e.createdAt o.createdAt r.createdAt
      updatedAt := updateDate e.updatedAt o.updatedAt now }
  | .orders, e, o, now, r =>
    { userId := column e.userId o.userId r.userId
      status := column e.status o.status r.status
      idempotencyKey := column e.idempotencyKey o.idempotencyKey r.idempotencyKey
      createdAt := column e.createdAt o.createdAt r.createdAt
      updatedAt := updateDate e.updatedAt o.updatedAt now
      processedAt := column e.processedAt o.processedAt r.processedAt }
  | .orderItems, e, o, now, r =>
    { orderId := column e.orderId o.orderId r.orderId
      productId := column e.productId o.productId r.productId
      quantity := column e.quantity o.quantity r.quantity
      priceSnapshot := column e.priceSnapshot o.priceSnapshot r.priceSnapshot
      createdAt := column e.createdAt o.createdAt r.createdAt
      updatedAt := updateDate e.updatedAt o.updatedAt now }
  | .processedMessages, e, o, _, r =>
    { orderId := column e.orderId o.orderId r.orderId
      handler := column e.handler o.handler r.handler
      processedAt := column e.processedAt o.processedAt r.processedAt }

/-- The entity takes over the update date that the server generated. -/
def returning : (t : Table) → (entity row : t.Row) → t.Row
  | .users, e, r => { e with updatedAt := r.updatedAt }
  | .products, e, r => { e with updatedAt := r.updatedAt }
  | .orders, e, r => { e with updatedAt := r.updatedAt }
  | .orderItems, e, r => { e with updatedAt := r.updatedAt }
  | .processedMessages, e, _ => e

def update (t : Table) (id : Uuid) (set : Nat → t.Row → t.Row) : App (Option t.Row) :=
  sql (.stmt (.update t id set))

/-- The write of `save`, once the row has been re-read. -/
def writeEntity (t : Table) (id : Uuid) (entity : t.Row) : Option (Uuid × t.Row) → App t.Row
  | some (_, reread) => do
    let row ← update t id (saveColumns t entity reread)
    pure (row.elim entity (returning t entity))
  | none => do
    let saved ← insert t (some id) (fun _ => entity)
    pure saved.2

/-- `manager.save` of an entity with an id, inside a transaction: re-read the
row, then write the columns that differ, or insert the row when it is gone. -/
def managerSave (t : Table) (id : Uuid) (entity : t.Row) : App t.Row := do
  let found ← findOne t (fun j _ => j = id)
  if found.map (·.2) = some entity then pure entity
  else writeEntity t id entity found

/-- `DataSource.transaction`: an error rolls back and is thrown on, whatever
the rollback does. -/
def transaction {α : Type} (runInTransaction : App α) : App α := do
  try
    startTransaction
    let result ← runInTransaction
    commitTransaction
    pure result
  catch error =>
    try rollbackTransaction catch _ => pure ()
    throw error

/-- `repository.save`: the same, with the write in a transaction of its own. -/
def repositorySave (t : Table) (id : Uuid) (entity : t.Row) : App t.Row := do
  let found ← findOne t (fun j _ => j = id)
  if found.map (·.2) = some entity then pure entity
  else transaction (writeEntity t id entity found)

end Ecomm
