import Ecomm.OrdersWorker

/-! Which operations the repository calls and the services may await. -/

namespace Ecomm

open Concurrent Sql Prog

/-- The message is `order.created` for order `o`, with `messageId` `u`. -/
structure Announces (m : Published) (u o : Uuid) : Prop where
  queue : m.queue = AppState.processQueue
  messageId : m.payload.get "messageId" = some (.str (uuidOut u))
  orderId : m.payload.get "orderId" = some (.str (uuidOut o))

section Calls

variable {A : AppOp → Prop} {α : Type}

theorem awaits_reject (hm : ∀ e, A (.sql (.stmt (.malformed e)))) (e : SqlError) :
    (reject e : App α).Awaits A :=
  (awaits_await (hm e)).bind (fun a => nomatch (show Empty from a))

theorem awaits_find {t : Table} {cond : Uuid → t.Row → Bool}
    (hs : A (.sql (.stmt (.select t cond)))) : (find t cond).Awaits A :=
  awaits_await hs

theorem awaits_findOne {t : Table} {cond : Uuid → t.Row → Bool}
    (hs : A (.sql (.stmt (.select t cond)))) : (findOne t cond).Awaits A :=
  (awaits_find hs).bind (fun _ => trivial)

theorem awaits_findOneById {t : Table} (hs : ∀ cond, A (.sql (.stmt (.select t cond))))
    (hm : ∀ e, A (.sql (.stmt (.malformed e)))) (id : String) : (findOneById t id).Awaits A := by
  unfold findOneById
  split
  · exact awaits_findOne (hs _)
  · exact awaits_reject hm _

theorem awaits_findOneForUpdate {t : Table} (hs : ∀ u, A (.sql (.stmt (.selectForUpdate t u))))
    (hm : ∀ e, A (.sql (.stmt (.malformed e)))) (id : String) :
    (findOneForUpdate t id).Awaits A := by
  unfold findOneForUpdate
  split
  · exact (awaits_await (hs _)).bind (fun _ => trivial)
  · exact awaits_reject hm _

theorem awaits_delete {t : Table} (hd : ∀ u, A (.sql (.stmt (.delete t u))))
    (hm : ∀ e, A (.sql (.stmt (.malformed e)))) (id : String) : (delete t id).Awaits A := by
  unfold delete
  split
  · exact awaits_await (hd _)
  · exact awaits_reject hm _

theorem awaits_writeEntity {t : Table} {id : Uuid} {entity : t.Row}
    (hi : A (.sql (.stmt (.insert t (some id) (fun _ => entity)))))
    (hu : ∀ reread, A (.sql (.stmt (.update t id (saveColumns t entity reread)))))
    (found : Option (Uuid × t.Row)) : (writeEntity t id entity found).Awaits A := by
  cases found with
  | none => exact Awaits.bind (awaits_await hi) (fun _ => trivial)
  | some e => exact Awaits.bind (awaits_await (hu e.2)) (fun _ => trivial)

theorem awaits_managerSave {t : Table} {id : Uuid} {entity : t.Row}
    (hs : ∀ cond, A (.sql (.stmt (.select t cond))))
    (hi : A (.sql (.stmt (.insert t (some id) (fun _ => entity)))))
    (hu : ∀ reread, A (.sql (.stmt (.update t id (saveColumns t entity reread))))) :
    (managerSave t id entity).Awaits A := by
  refine (awaits_findOne (hs _)).bind ?_
  intro found
  split
  · trivial
  · exact awaits_writeEntity hi hu found

theorem awaits_transaction {body : App α} (hstart : A (.sql .startTransaction))
    (hcommit : A (.sql .commitTransaction)) (hrollback : A (.sql .rollbackTransaction))
    (hb : body.Awaits A) : (transaction body).Awaits A := by
  refine Awaits.tryCatch ?_ ?_
  · refine Awaits.bind (awaits_await hstart) ?_
    intro _
    refine Awaits.bind hb ?_
    intro a
    exact Awaits.bind (awaits_await hcommit) (fun _ => trivial)
  · intro e
    refine Awaits.bind ?_ (fun _ => trivial)
    exact Awaits.tryCatch (awaits_await hrollback) (fun _ => trivial)

theorem awaits_repositorySave {t : Table} {id : Uuid} {entity : t.Row}
    (hstart : A (.sql .startTransaction)) (hcommit : A (.sql .commitTransaction))
    (hrollback : A (.sql .rollbackTransaction))
    (hs : ∀ cond, A (.sql (.stmt (.select t cond))))
    (hi : A (.sql (.stmt (.insert t (some id) (fun _ => entity)))))
    (hu : ∀ reread, A (.sql (.stmt (.update t id (saveColumns t entity reread))))) :
    (repositorySave t id entity).Awaits A := by
  refine (awaits_findOne (hs _)).bind ?_
  intro found
  split
  · trivial
  · exact awaits_transaction hstart hcommit hrollback (awaits_writeEntity hi hu found)

theorem awaits_findOrderWithItems (hs : ∀ t cond, A (.sql (.stmt (.select t cond))))
    (cond : Uuid → Order → Bool) : (findOrderWithItems cond).Awaits A := by
  refine Awaits.bind (awaits_findOne (hs _ _)) ?_
  intro found
  cases found with
  | none => trivial
  | some e => exact Awaits.bind (awaits_find (hs _ _)) (fun _ => trivial)

theorem awaits_findByKey (hs : ∀ t cond, A (.sql (.stmt (.select t cond)))) (key : Option String) :
    (findByKey key).Awaits A := by
  unfold findByKey
  split
  · exact awaits_findOrderWithItems hs _
  · trivial

theorem awaits_announcement (huuid : A .randomUUID) (hready : A .channelReady)
    {order : OrderEntity} (hsend : ∀ m u, Announces m u order.id → A (.sendToQueue m)) :
    (publishOrderCreated order).Awaits A := by
  refine Awaits.bind (awaits_await huuid) ?_
  intro messageId
  split
  · trivial
  · refine Awaits.bind ?_ (fun _ => trivial)
    refine Awaits.bind (awaits_await hready) ?_
    intro ready
    split
    · exact awaits_await (hsend _ messageId ⟨rfl, rfl, rfl⟩)
    · trivial

theorem awaits_publishOrderCreated (huuid : A .randomUUID) (hready : A .channelReady)
    (hsend : ∀ m, A (.sendToQueue m)) (order : OrderEntity) :
    (publishOrderCreated order).Awaits A :=
  awaits_announcement huuid hready (fun m _ _ => hsend m)

section Items

variable (hl : ∀ u, A (.sql (.stmt (.selectForUpdate .products u))))
  (hm : ∀ e, A (.sql (.stmt (.malformed e))))
  (hs : ∀ cond, A (.sql (.stmt (.select .products cond))))
  (hi : ∀ id row, A (.sql (.stmt (.insert .products (some id) row))))
  (hu : ∀ id set, A (.sql (.stmt (.update .products id set))))
  (ho : ∀ row, A (.sql (.stmt (.insert .orderItems none row))))
include hl hm hs hi hu ho

theorem awaits_createItem (orderId : Uuid) (item : CreateOrderItem) :
    (createItem orderId item).Awaits A := by
  refine Awaits.bind (awaits_findOneForUpdate hl hm _) ?_
  intro found
  cases found with
  | none => trivial
  | some e =>
    dsimp only
    split
    · trivial
    · split
      · trivial
      · refine Awaits.bind (awaits_managerSave hs (hi _ _) (fun _ => hu _ _)) ?_
        intro _
        exact awaits_await (ho _)

theorem awaits_createItems (orderId : Uuid) (items : List CreateOrderItem) :
    (createItems orderId items).Awaits A := by
  induction items with
  | nil => trivial
  | cons item items ih =>
    refine Awaits.bind (awaits_createItem hl hm hs hi hu ho orderId item) ?_
    intro _
    exact Awaits.bind ih (fun _ => trivial)

end Items

theorem awaits_createFailed (hrollback : A (.sql .rollbackTransaction))
    (hs : ∀ t cond, A (.sql (.stmt (.select t cond)))) (key : Option String) (error : Thrown) :
    (createFailed key error).Awaits A := by
  refine Awaits.bind (awaits_await hrollback) ?_
  intro _
  split
  · refine Awaits.bind (awaits_findByKey hs key) ?_
    intro found
    cases found <;> trivial
  · trivial

theorem awaits_insertMarker (hi : ∀ id row, A (.sql (.stmt (.insert .processedMessages id row))))
    (hm : ∀ e, A (.sql (.stmt (.malformed e)))) (messageId orderId : Option Json) :
    (insertMarker messageId orderId).Awaits A := by
  unfold insertMarker
  split
  · exact Awaits.bind (awaits_await (hi _ _)) (fun _ => trivial)
  · exact awaits_reject hm _
  · exact awaits_reject hm _

theorem awaits_processInTransaction
    (hi : ∀ t id row, t = .orders ∨ t = .processedMessages →
      A (.sql (.stmt (.insert t id row))))
    (hm : ∀ e, A (.sql (.stmt (.malformed e))))
    (hs : ∀ cond, A (.sql (.stmt (.select .orders cond))))
    (hu : ∀ id set, A (.sql (.stmt (.update .orders id set)))) (hnow : A .dateNow)
    (message : Json.Fields) : (processInTransaction message).Awaits A := by
  refine Awaits.bind (Awaits.tryCatch ?_ ?_) ?_
  · refine Awaits.bind (awaits_insertMarker (fun _ _ => hi _ _ _ (.inr rfl)) hm _ _) ?_
    exact fun _ => trivial
  · intro error
    split <;> trivial
  · intro marker
    cases marker with
    | none => trivial
    | some orderId =>
      refine Awaits.bind (awaits_findOne (hs _)) ?_
      intro found
      cases found with
      | none => trivial
      | some e =>
        dsimp only
        split
        · trivial
        · refine Awaits.bind (awaits_await hnow) ?_
          intro now
          refine Awaits.bind (awaits_managerSave hs ?_ (fun _ => hu _ _)) (fun _ => trivial)
          exact hi _ _ _ (.inl rfl)

section Jobs

variable (hstart : A (.sql .startTransaction)) (hcommit : A (.sql .commitTransaction))
  (hrollback : A (.sql .rollbackTransaction)) (hm : ∀ e, A (.sql (.stmt (.malformed e))))
  (hs : ∀ cond, A (.sql (.stmt (.select .orders cond))))
  (hi : ∀ t id row, t = .orders ∨ t = .processedMessages → A (.sql (.stmt (.insert t id row))))
  (hu : ∀ id set, A (.sql (.stmt (.update .orders id set)))) (hnow : A .dateNow)
  (hpublish : ∀ event, A (.publishStatusChanged event))
include hstart hcommit hrollback hm hs hi hu hnow hpublish

theorem awaits_processOrderMessage (message : Json.Fields) :
    (processOrderMessage message).Awaits A := by
  have hbody := awaits_processInTransaction hi hm hs hu hnow message
  refine (awaits_transaction hstart hcommit hrollback hbody).bind ?_
  intro result
  cases result with
  | deduplicated | unchanged => trivial
  | statusChanged id order =>
    refine (awaits_await hnow).bind (fun ts => ?_)
    exact (awaits_await (hpublish _)).bind (fun _ => trivial)

theorem awaits_updateOrder (id : String) (updates : UpdateOrderDto) :
    (updateOrder id updates).Awaits A := by
  refine (awaits_findOneById hs hm id).bind ?_
  intro found
  cases found with
  | none => trivial
  | some e =>
    obtain ⟨orderId, order⟩ := e
    refine (awaits_repositorySave hstart hcommit hrollback hs (hi _ _ _ (.inl rfl))
      (fun _ => hu _ _)).bind ?_
    intro saved
    split
    · refine (awaits_await hnow).bind (fun ts => ?_)
      exact (awaits_await (hpublish _)).bind (fun _ => trivial)
    · trivial

end Jobs

section Create

variable (hstart : A (.sql .startTransaction)) (hcommit : A (.sql .commitTransaction))
  (hrollback : A (.sql .rollbackTransaction)) (hs : ∀ t cond, A (.sql (.stmt (.select t cond))))
  (hm : ∀ e, A (.sql (.stmt (.malformed e))))
  (hl : ∀ u, A (.sql (.stmt (.selectForUpdate .products u))))
  (hi : ∀ id row, A (.sql (.stmt (.insert .products (some id) row))))
  (hu : ∀ id set, A (.sql (.stmt (.update .products id set))))
  (hitem : ∀ row, A (.sql (.stmt (.insert .orderItems none row))))
  (horder : ∀ row : Nat → Order, (∀ now, (row now).status = .pending) →
    A (.sql (.stmt (.insert .orders none row))))
  (huuid : A .randomUUID) (hready : A .channelReady)
  (hsend : ∀ m u o, Announces m u o → A (.sendToQueue m))
include hcommit hs hm hl hi hu hitem horder

theorem awaits_createInTransaction (dto : CreateOrderDto) (userId : Uuid) (key : Option String) :
    (createInTransaction dto userId key).Awaits A := by
  refine Awaits.bind (awaits_await (horder _ (fun _ => rfl))) ?_
  intro saved
  refine Awaits.bind (awaits_createItems hl hm (hs _) hi hu hitem _ _) ?_
  intro _
  refine Awaits.bind (awaits_findOrderWithItems hs _) ?_
  intro found
  cases found with
  | none => trivial
  | some e => exact Awaits.bind (awaits_await hcommit) (fun _ => trivial)

include hstart hrollback huuid hready hsend

theorem awaits_createOrder (dto : CreateOrderDto) (userId : Uuid) (key : Option String) :
    (createOrder dto userId key).Awaits A := by
  refine Awaits.bind (awaits_await hstart) ?_
  intro _
  refine Awaits.bind (Awaits.tryCatch ?_ ?_) ?_
  · refine Awaits.bind ?_ (fun _ => trivial)
    exact awaits_createInTransaction hcommit hs hm hl hi hu hitem horder dto userId key
  · intro e
    exact (awaits_createFailed hrollback hs key e).bind (fun _ => trivial)
  · intro outcome
    cases outcome with
    | inr duplicate => trivial
    | inl created =>
      exact (awaits_announcement huuid hready (fun m u => hsend m u _)).bind (fun _ => trivial)

theorem awaits_create (dto : CreateOrderDto) (idempotencyKey : Option String) :
    (create dto idempotencyKey).Awaits A := by
  refine Awaits.bind (awaits_findByKey hs _) ?_
  intro found
  cases found with
  | some e => trivial
  | none =>
    dsimp only
    split
    · trivial
    · refine Awaits.bind (awaits_findOneById (hs _) hm _) ?_
      intro user
      cases user with
      | none => trivial
      | some u =>
        exact awaits_createOrder hstart hcommit hrollback hs hm hl hi hu hitem horder huuid hready
          hsend dto _ _

end Create

theorem awaits_publishAndAck {queue : String} {payload : Json} {options : PublishOptions}
    (hready : A .channelReady) (hack : A (.settle .ack))
    (hsend : A (.sendToQueue ⟨queue, payload, options⟩)) (messageId orderId : Option Json) :
    (do
      let published ← publishToQueue queue payload options
      if ¬ published then publishFailed queue
      else do
        logDeliveryResult messageId orderId
        ack : App Unit).Awaits A := by
  refine Awaits.bind (Awaits.bind (awaits_await hready) ?_) ?_
  · intro ready
    split
    · exact awaits_await hsend
    · trivial
  · intro published
    split
    · trivial
    · refine Awaits.bind ?_ (fun _ => awaits_await hack)
      rw [logDeliveryResult]
      split <;> trivial

theorem awaits_stamped (hnow : A .dateNow) (ms : Nat → Nat) {p : String → App Unit}
    (hp : ∀ stamp, (p stamp).Awaits A) :
    (do
      let now ← await .dateNow
      let stamp ← isoString (ms now)
      p stamp : App Unit).Awaits A := by
  refine Awaits.bind (awaits_await hnow) (fun now => Awaits.bind ?_ hp)
  rw [isoString]
  split <;> trivial

end Calls

/-- What `create` asks for: it writes rows of `orders` and `order_items` with
generated ids only, and otherwise products. -/
def CreateOp : AppOp → Prop
  | .sql (.stmt (.insert t id _)) => t = .products ∨ id = none
  | .sql (.stmt (.update t _ _)) => t = .products
  | .sql (.stmt (.delete _ _)) => False
  | .sql _ | .sendToQueue _ | .channelReady | .randomUUID => True
  | .settle _ | .publishStatusChanged _ | .dateNow => False

theorem create_awaits (dto : CreateOrderDto) (idempotencyKey : Option String) :
    (create dto idempotencyKey).Awaits CreateOp :=
  awaits_create trivial trivial trivial (fun _ _ => trivial) (fun _ => trivial) (fun _ => trivial)
    (fun _ _ => .inl rfl) (fun _ _ => rfl) (fun _ => .inr rfl) (fun _ _ => .inr rfl) trivial trivial
    (fun _ _ _ _ => trivial) dto idempotencyKey

end Ecomm
