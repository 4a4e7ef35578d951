import Ecomm.TypeOrm
import Ecomm.JsDate

/-! `OrdersService`: creating orders, processing queue messages and updating
orders, statement by statement. -/

namespace Ecomm

open Concurrent

structure CreateOrderItem where
  productId : String
  quantity : Int
  priceSnapshot : ℚ

structure CreateOrderDto where
  userId : String
  idempotencyKey : Option String
  items : List CreateOrderItem

/-- An order loaded with its `items` relation. -/
structure OrderEntity where
  id : Uuid
  row : Order
  items : List (Uuid × OrderItem)

structure CreateResult where
  order : OrderEntity
  wasDuplicate : Bool

/-- The empty string is falsy. -/
def truthy (key : Option String) : Option String := key.filter (· ≠ "")

def isUniqueViolation : Thrown → Bool
  | .sql e => e.code = some "23505"
  | _ => false

/-- `RabbitmqService.publishToQueue`. -/
def publishToQueue (queue : String) (payload : Json) (options : PublishOptions) : App Bool := do
  let ready ← await .channelReady
  if ready then await (.sendToQueue ⟨queue, payload, options⟩) else pure false

def publishOrderCreated (order : OrderEntity) : App Unit := do
  let messageId ← await .randomUUID
  match toISOString order.row.createdAt with
  | none => throw (.rangeError "Invalid time value")
  | some createdAt =>
    let payload : Json := .obj
      [("messageId", .str (uuidOut messageId)), ("orderId", .str (uuidOut order.id)),
        ("createdAt", .str createdAt), ("attempt", .num 0),
        ("correlationId", .str (uuidOut order.id)), ("producer", .str "orders-api"),
        ("eventName", .str "order.created")]
    let _ ← publishToQueue "orders.process" payload
      { messageId := some (.str (uuidOut messageId))
        correlationId := some (.str (uuidOut order.id))
        timestamp := some order.row.createdAt
        expiration := none }

/-- `findOne` with the relation `items`. -/
def findOrderWithItems (cond : Uuid → Order → Bool) : App (Option OrderEntity) := do
  match ← findOne .orders cond with
  | none => pure none
  | some (id, row) =>
    let items ← find .orderItems (fun _ r => r.orderId = id)
    pure (some ⟨id, row, items⟩)

def findByKey (key : Option String) : App (Option OrderEntity) :=
  match truthy key with
  | some k => findOrderWithItems (fun _ r => r.idempotencyKey = some k)
  | none => pure none

def orderItem (orderId productId : Uuid) (item : CreateOrderItem) (now : Nat) : OrderItem where
  orderId := orderId
  productId := productId
  quantity := item.quantity
  priceSnapshot := numeric item.priceSnapshot
  createdAt := now
  updatedAt := now

/-- One pass of the item loop of `create`. -/
def createItem (orderId : Uuid) (item : CreateOrderItem) : App (Uuid × OrderItem) := do
  match ← findOneForUpdate .products item.productId with
  | none => throw (.notFound "Product not found")
  | some (productId, product) =>
    if item.quantity ≤ 0 then throw (.badRequest "Quantity must be greater than zero")
    else if product.stock < item.quantity then throw (.conflict "Insufficient stock")
    else do
      let _ ← managerSave .products productId { product with stock := product.stock - item.quantity }
      insert .orderItems none (orderItem orderId productId item)

def createItems (orderId : Uuid) : List CreateOrderItem → App (List (Uuid × OrderItem))
  | [] => pure []
  | item :: items => do
    let savedItem ← createItem orderId item
    let savedItems ← createItems orderId items
    pure (savedItem :: savedItems)

/-- The body of the transaction of `create`. -/
def createInTransaction (dto : CreateOrderDto) (userId : Uuid) (key : Option String) :
    App OrderEntity := do
  let savedOrder ← insert .orders none (fun now =>
    { userId, status := .pending, idempotencyKey := key
      createdAt := now, updatedAt := now, processedAt := none })
  let _ ← createItems savedOrder.1 dto.items
  match ← findOrderWithItems (fun id _ => id = savedOrder.1) with
  | none => throw (.notFound "Order not found after creation")
  | some createdOrder =>
    commitTransaction
    pure createdOrder

/-- The catch clause: roll back, and answer a lost race for the key with the
order of the winner. -/
def createFailed (key : Option String) (error : Thrown) : App CreateResult := do
  rollbackTransaction
  if isUniqueViolation error then
    match ← findByKey key with
    | some existingOrder => pure ⟨existingOrder, true⟩
    | none => throw error
  else throw error

/-- From the start of the transaction to the answer. -/
def createOrder (dto : CreateOrderDto) (userId : Uuid) (key : Option String) :
    App CreateResult := do
  startTransaction
  let outcome : OrderEntity ⊕ CreateResult ←
    try
      let createdOrder ← createInTransaction dto userId key
      pure (Sum.inl createdOrder)
    catch error =>
      let duplicate ← createFailed key error
      pure (Sum.inr duplicate)
  match outcome with
  | .inr duplicate => pure duplicate
  | .inl createdOrder =>
    publishOrderCreated createdOrder
    pure ⟨createdOrder, false⟩

/-- `idempotencyKey ?? dto.idempotencyKey ?? null`. -/
def effectiveKey (dto : CreateOrderDto) (idempotencyKey : Option String) : Option String :=
  idempotencyKey.or dto.idempotencyKey

def create (dto : CreateOrderDto) (idempotencyKey : Option String) : App CreateResult := do
  match ← findByKey (effectiveKey dto idempotencyKey) with
  | some existingOrder => pure ⟨existingOrder, true⟩
  | none =>
    if dto.items.isEmpty then throw (.badRequest "Order items cannot be empty")
    else do
      match ← findOneById .users dto.userId with
      | none => throw (.notFound "User not found")
      | some (userId, _) => createOrder dto userId (effectiveKey dto idempotencyKey)

inductive ProcessOutcome where
  | processed
  | alreadyProcessed
  | deduplicated
  deriving DecidableEq

structure ProcessOrderMessageResult where
  outcome : ProcessOutcome
  orderId : Option Json

/-- A uuid parameter taken from a message, whose fields are unchecked. -/
def uuidParam : Option Json → Except Sql.SqlError Uuid
  | none | some .null => .error .notNullViolation
  | some (.str s) =>
    match uuidIn s with
    | some u => .ok u
    | none => .error .invalidText
  | some _ => .error .invalidText

def insertMarker (messageId orderId : Option Json) : App Uuid :=
  match uuidParam messageId, uuidParam orderId with
  | .ok m, .ok o => do
    let _ ← insert .processedMessages (some m) (fun now =>
      { orderId := o, handler := some "orders.process", processedAt := now })
    pure o
  | .error e, _ => reject e
  | _, .error e => reject e

/-- What the transaction of `processOrderMessage` returns. -/
inductive Processing where
  | deduplicated
  | unchanged (id : Uuid) (order : Order)
  | statusChanged (id : Uuid) (order : Order)

def processInTransaction (message : Json.Fields) : App Processing := do
  let marker : Option Uuid ←
    try
      let orderId ← insertMarker (message.lookup "messageId") (message.lookup "orderId")
      pure (some orderId)
    catch error => if isUniqueViolation error then pure none else throw error
  match marker with
  | none => pure .deduplicated
  | some orderId =>
    match ← findOne .orders (fun id _ => id = orderId) with
    | none => throw (.notFound "Order not found")
    | some (id, order) =>
      if order.status = .processed then pure (.unchanged id order)
      else do
        let now ← await .dateNow
        let savedOrder ← managerSave .orders id
          { order with status := .processed, processedAt := some now }
        pure (.statusChanged id savedOrder)

def processOrderMessage (message : Json.Fields) : App ProcessOrderMessageResult := do
  match ← transaction (processInTransaction message) with
  | .deduplicated => pure ⟨.deduplicated, message.lookup "orderId"⟩
  | .unchanged _ _ => pure ⟨.alreadyProcessed, message.lookup "orderId"⟩
  | .statusChanged id order =>
    let ts ← await .dateNow
    await (.publishStatusChanged ⟨id, order.status, order.updatedAt, ts⟩)
    pure ⟨.processed, some (.str (uuidOut id))⟩

structure UpdateOrderDto where
  status : Option OrderStatus
  idempotencyKey : Option (Option String)

/-- `Object.assign(order, updates)`; what was not sent is no property of `updates`. -/
def UpdateOrderDto.assign (updates : UpdateOrderDto) (order : Order) : Order :=
  { order with
    status := updates.status.getD order.status
    idempotencyKey := updates.idempotencyKey.getD order.idempotencyKey }

def updateOrder (id : String) (updates : UpdateOrderDto) : App (Uuid × Order) := do
  match ← findOneById .orders id with
  | none => throw (.notFound "Order not found")
  | some (orderId, order) =>
    let savedOrder ← repositorySave .orders orderId (updates.assign order)
    if updates.status.any (· ≠ order.status) then do
      let ts ← await .dateNow
      await (.publishStatusChanged ⟨orderId, savedOrder.status, savedOrder.updatedAt, ts⟩)
      pure (orderId, savedOrder)
    else pure (orderId, savedOrder)

def deleteOrder (id : String) : App Unit := do
  let affected ← delete .orders id
  if affected = 0 then throw (.notFound "Order not found") else pure ()

structure AuthUser where
  sub : String
  email : String
  roles : List String
  scopes : List String

def isStaff (roles : List String) : Bool :=
  roles.contains "admin" || roles.contains "operator" || roles.contains "support"

def assertCanAccessOrder (order : Order) (user : AuthUser) : App Unit :=
  if isStaff user.roles then pure ()
  else if uuidOut order.userId ≠ user.sub then throw (.forbidden "Access denied")
  else pure ()

def canSubscribeToOrder (orderId : String) (user : AuthUser) : App Unit := do
  match ← findOneById .orders orderId with
  | none => throw (.notFound "Order not found")
  | some (_, order) => assertCanAccessOrder order user

end Ecomm
