import Ecomm.HandlerSpec
import Ecomm.LockStages
import Ecomm.ProductsService
import Mathlib.Data.Finset.Max
import Mathlib.Data.Prod.Lex

/-! Requests and workers side by side are never all stuck: as long as the item
lists name the products in one order, some call that has not ended can go on.
Every call has a connection of its own; waits for the pool are not modelled. -/

namespace Ecomm

open Concurrent Sql Prog

inductive ServiceCall where
  | createOrder (call : CreateCall)
  | updateOrder (id : String) (updates : UpdateOrderDto)
  | createProduct (dto : ProductsService.CreateProductDto)
  | updateProduct (id : String) (updates : ProductsService.UpdateProductDto)
  | createUser (hash : String → String) (email : String) (password : Option String)
    (roles scopes : Option (List String))
  | consume (config : WorkerConfig) (describe : Thrown → String) (message : Content)

def ServiceCall.program : ServiceCall → App Unit
  | createOrder call => do let _ ← call.program
  | updateOrder id updates => do let _ ← Ecomm.updateOrder id updates
  | createProduct dto => do let _ ← ProductsService.create dto
  | updateProduct id updates => do let _ ← ProductsService.updateProduct id updates
  | createUser hash email password roles scopes => do
    let _ ← UsersService.create hash email password roles scopes
  | consume config describe message => onMessage config describe processOrderMessage message

/-- A request names the products of an order as `rank` sorts them. -/
def ServiceCall.InOrder (rank : Uuid → Nat) : ServiceCall → Prop
  | createOrder call => Ecomm.InOrder rank [] call.dto.items
  | _ => True

def calling (s : AppState) (calls : List ServiceCall) : Config app Unit :=
  ⟨s, fun i => (calls[i]?).map ServiceCall.program⟩

section Program

variable {rank : Uuid → Nat} {α : Type} {g : Stage} {Q : α → Stage → Prop}

theorem idle_stage {o : AppOp} (ho : Idle o) (g : Stage) :
    stageAllowed rank g o ∧ ∀ r g', stageNext g o r g' → g' = g ∨ g' = g.failed := by
  cases o with
  | sql q =>
    cases q with
    | startTransaction | commitTransaction | rollbackTransaction => exact ho.elim
    | stmt q =>
      cases q with
      | selectForUpdate | insert | update | delete => exact ho.elim
      | select t cond =>
        refine ⟨trivial, ?_⟩
        intro r g' hn
        cases r with
        | ok rows => exact .inl hn.1
        | error e => exact hn
      | malformed e =>
        refine ⟨trivial, ?_⟩
        intro r g' hn
        cases r with
        | ok a => exact .inl hn
        | error e => exact hn
  | channelReady | sendToQueue _ | settle _ | publishStatusChanged _ | randomUUID | dateNow =>
    exact ⟨trivial, fun _ _ hn => .inl hn⟩

theorem wp_idle_stage {p : App α} (hp : p.Awaits Idle) :
    p.wp (stageRules rank) (fun _ g => g = .idle) (fun _ g => g = .idle) .idle := by
  refine hp.wp ?_ rfl
  rintro g o rfl ho
  obtain ⟨hallowed, hnext⟩ := idle_stage ho .idle
  exact ⟨hallowed, fun r g' hn => (hnext r g' hn).elim id id⟩

theorem wp_idle_anywhere {p : App α} (hp : p.Awaits Idle) (g : Stage) :
    p.wp (stageRules rank) (fun _ _ => True) (fun _ _ => True) g :=
  hp.wp (I := fun _ => True) (fun g _ _ ho => ⟨(idle_stage ho g).1, fun _ _ _ => trivial⟩) trivial

theorem wp_stmt_stage {q : Stmt schema} {Q : q.Ans → Stage → Prop}
    (ha : stageAllowed rank g (.sql (.stmt q)))
    (hnext : ∀ a g', stageNext g (.sql (.stmt q)) (.ok a) g' → Q a g') :
    (sql (.stmt q)).wp (stageRules rank) Q (fun _ _ => True) g :=
  (wp_await _ _ _ _).mpr ⟨ha, hnext, fun _ _ _ => trivial⟩

theorem wp_rollback_stage (g : Stage) : rollbackTransaction.wp (stageRules rank)
    (fun _ g => g = .idle) (fun _ g => g = .idle) g :=
  (wp_await _ _ _ _).mpr ⟨trivial, fun _ _ hn => hn, fun _ _ hn => hn⟩

/-- Whatever the body does, the transaction has ended when the call goes on. -/
theorem wp_transaction_stage {body : App α}
    (hbody : body.wp (stageRules rank) (fun _ _ => True) (fun _ _ => True) .fresh) :
    (transaction body).wp (stageRules rank) (fun _ g => g = .idle) (fun _ g => g = .idle)
      .idle := by
  have hcatch : ∀ (error : Thrown) (g : Stage), Prog.wp (stageRules rank) (do
      try rollbackTransaction catch _ => pure ()
      throw error : App α) (fun _ g => g = .idle) (fun _ g => g = .idle) g := by
    intro error g
    refine (wp_bind _ _ _ _ _).mpr ((wp_tryCatch _ _ _ _ _).mpr ?_)
    exact wp_rollback_stage g
  refine (wp_tryCatch _ _ _ _ _).mpr ((wp_bind _ _ _ _ _).mpr ?_)
  refine (wp_await _ _ _ _).mpr ⟨rfl, ?_, fun e g' _ => hcatch e g'⟩
  intro _ g hn
  obtain rfl : g = .fresh := hn
  refine (wp_bind _ _ _ _ _).mpr ?_
  refine wp_mono hbody ?_ (fun e g' _ => hcatch e g')
  intro a g _
  refine (wp_bind _ _ _ _ _).mpr ((wp_await _ _ _ _).mpr ⟨trivial, ?_, fun e g' _ => hcatch e g'⟩)
  exact fun _ _ hn => hn

theorem early_update {t : Table} (h : g.early t) (id : Uuid) (set : Nat → t.Row → t.Row) :
    stageAllowed rank g (.sql (.stmt (.update t id set))) := by
  cases t with
  | products => exact .inl h
  | users | orders | orderItems | processedMessages => exact h

theorem wp_writeEntity_stage {t : Table} (h : g.early t) (id : Uuid) (entity : t.Row)
    (found : Option (Uuid × t.Row)) :
    (writeEntity t id entity found).wp (stageRules rank) (fun _ _ => True) (fun _ _ => True) g := by
  cases found with
  | none =>
    refine (wp_bind _ _ _ _ _).mpr (wp_stmt_stage (.inl h) ?_)
    exact fun _ _ _ => trivial
  | some e =>
    refine (wp_bind _ _ _ _ _).mpr (wp_stmt_stage (early_update h id _) ?_)
    exact fun _ _ _ => trivial

theorem wp_repositorySave_stage {t : Table} (id : Uuid) (entity : t.Row) :
    (repositorySave t id entity).wp (stageRules rank) (fun _ g => g = .idle)
      (fun _ g => g = .idle) .idle := by
  refine (wp_bind _ _ _ _ _).mpr ?_
  refine wp_mono (wp_idle_stage (awaits_findOne trivial)) ?_ (fun _ _ h => h)
  rintro found _ rfl
  split
  · rfl
  · exact wp_transaction_stage (wp_writeEntity_stage (.inr (.inl rfl)) id entity found)

theorem wp_updateOrder_stage (id : String) (updates : UpdateOrderDto) :
    (updateOrder id updates).wp (stageRules rank) (fun _ g => g = .idle)
      (fun _ g => g = .idle) .idle := by
  refine (wp_bind _ _ _ _ _).mpr ?_
  refine wp_mono (wp_idle_stage (awaits_findOneById (fun _ => trivial) (fun _ => trivial) id)) ?_
    (fun _ _ h => h)
  rintro found _ rfl
  cases found with
  | none => rfl
  | some e =>
    refine (wp_bind _ _ _ _ _).mpr ?_
    refine wp_mono (wp_repositorySave_stage e.1 _) ?_ (fun _ _ h => h)
    rintro saved _ rfl
    refine wp_idle_stage ?_
    split
    · refine (awaits_await trivial).bind (fun ts => ?_)
      exact (awaits_await trivial).bind (fun _ => trivial)
    · trivial

theorem wp_updateProduct_stage (id : String) (updates : ProductsService.UpdateProductDto) :
    (ProductsService.updateProduct id updates).wp (stageRules rank) (fun _ g => g = .idle)
      (fun _ g => g = .idle) .idle := by
  refine (wp_bind _ _ _ _ _).mpr ?_
  refine wp_mono (wp_idle_stage (awaits_findOneById (fun _ => trivial) (fun _ => trivial) id)) ?_
    (fun _ _ h => h)
  rintro found _ rfl
  cases found with
  | none => rfl
  | some e =>
    refine (wp_bind _ _ _ _ _).mpr ?_
    exact wp_mono (wp_repositorySave_stage e.1 _) (fun _ _ h => h) (fun _ _ h => h)

theorem wp_insert_stage {t : Table} (row : Nat → t.Row) :
    (transaction (insert t none row)).wp (stageRules rank) (fun _ g => g = .idle)
      (fun _ g => g = .idle) .idle :=
  wp_transaction_stage (wp_stmt_stage (.inl (.inr (.inl rfl))) (fun _ _ _ => trivial))

theorem wp_createUser_stage (hash : String → String) (email : String) (password : Option String)
    (roles scopes : Option (List String)) :
    (UsersService.create hash email password roles scopes).wp (stageRules rank)
      (fun _ g => g = .idle) (fun _ g => g = .idle) .idle := by
  refine (wp_bind _ _ _ _ _).mpr ?_
  refine wp_mono (wp_idle_stage (awaits_findOne trivial)) ?_ (fun _ _ h => h)
  rintro found _ rfl
  cases found with
  | some existingUser => rfl
  | none => exact wp_insert_stage _

theorem wp_insertMarker_stage (messageId orderId : Option Json) :
    (insertMarker messageId orderId).wp (stageRules rank) (fun _ g => g = .marked)
      (fun _ _ => True) .fresh := by
  unfold insertMarker
  split
  · refine (wp_bind _ _ _ _ _).mpr (wp_stmt_stage (.inl (.inr (.inl rfl))) ?_)
    exact fun _ _ hn => hn
  · refine (wp_bind _ _ _ _ _).mpr (wp_stmt_stage trivial ?_)
    exact fun a => nomatch (show Empty from a)
  · refine (wp_bind _ _ _ _ _).mpr (wp_stmt_stage trivial ?_)
    exact fun a => nomatch (show Empty from a)

theorem wp_processInTransaction_stage (message : Json.Fields) :
    (processInTransaction message).wp (stageRules rank) (fun _ _ => True) (fun _ _ => True)
      .fresh := by
  refine (wp_bind _ _ _ _ _).mpr ((wp_tryCatch _ _ _ _ _).mpr ((wp_bind _ _ _ _ _).mpr ?_))
  refine wp_mono (wp_insertMarker_stage _ _) ?_ ?_
  · rintro orderId _ rfl
    refine (wp_bind _ _ _ _ _).mpr ((wp_bind _ _ _ _ _).mpr (wp_stmt_stage trivial ?_))
    intro rows g hn
    obtain rfl : g = .marked := hn.1
    simp only [pure_eq, wp_ret]
    cases rows.head? with
    | none => trivial
    | some found =>
      dsimp only
      split
      · trivial
      · refine (wp_bind _ _ _ _ _).mpr ((wp_await _ _ _ _).mpr ⟨trivial, ?_, fun _ _ _ => trivial⟩)
        intro now g hn
        obtain rfl : g = .marked := hn
        refine (wp_bind _ _ _ _ _).mpr ((wp_bind _ _ _ _ _).mpr ?_)
        refine (wp_bind _ _ _ _ _).mpr (wp_stmt_stage trivial ?_)
        intro reread g hn
        obtain rfl : g = .marked := hn.1
        simp only [pure_eq, wp_ret]
        split
        · trivial
        · refine wp_mono (wp_writeEntity_stage (.inr (.inr ⟨rfl, by simp⟩)) _ _ _) ?_
            (fun _ _ h => h)
          exact fun _ _ _ => trivial
  · intro error g _
    split
    · trivial
    · trivial

theorem wp_processOrderMessage_stage (message : Json.Fields) :
    (processOrderMessage message).wp (stageRules rank) (fun _ g => g = .idle)
      (fun _ g => g = .idle) .idle := by
  refine (wp_bind _ _ _ _ _).mpr ?_
  refine wp_mono (wp_transaction_stage (wp_processInTransaction_stage message)) ?_
    (fun _ _ h => h)
  rintro processing _ rfl
  cases processing with
  | deduplicated => rfl
  | unchanged id order => rfl
  | statusChanged id order =>
    refine wp_idle_stage ((awaits_await trivial).bind (fun ts => ?_))
    exact (awaits_await trivial).bind (fun _ => trivial)

section Consumer

variable (config : WorkerConfig) (describe : Thrown → String)

theorem idle_logDeliveryResult (messageId orderId : Option Json) :
    (logDeliveryResult messageId orderId).Awaits Idle := by
  unfold logDeliveryResult
  split <;> trivial

theorem idle_deadLetter (payload : Json) (attempt : Nat) (reason : String) :
    (deadLetter payload attempt reason).Awaits Idle :=
  awaits_stamped trivial id (fun _ => awaits_publishAndAck trivial trivial trivial _ _)

theorem idle_retryLater (payload : Json) (attempt : Nat) (reason : String) :
    (retryLater config payload attempt reason).Awaits Idle :=
  awaits_stamped trivial _ (fun _ => awaits_publishAndAck trivial trivial trivial _ _)

theorem wp_handleMessage_stage (message : Content) :
    (handleMessage config describe processOrderMessage message).wp (stageRules rank)
      (fun _ g => g = .idle) (fun _ g => g = .idle) .idle := by
  cases message with
  | invalid raw => exact wp_idle_stage (awaits_publishAndAck trivial trivial trivial _ _)
  | json payload =>
    by_cases hnull : payload = .null
    · subst hnull
      rfl
    · rw [handleMessage_payload hnull]
      have hfailed : ∀ (error : Thrown) (g : Stage), g = .idle →
          (if config.maxAttempts - 1 ≤ attemptOf payload then
            deadLetter payload (attemptOf payload) (getShortErrorReason describe error)
          else retryLater config payload (attemptOf payload)
            (getShortErrorReason describe error)).wp (stageRules rank)
            (fun _ g => g = .idle) (fun _ g => g = .idle) g := by
        rintro error _ rfl
        refine wp_idle_stage ?_
        split
        · exact idle_deadLetter _ _ _
        · exact idle_retryLater _ _ _ _
      refine (wp_tryCatch _ _ _ _ _).mpr ((wp_bind _ _ _ _ _).mpr ?_)
      refine wp_mono (wp_processOrderMessage_stage _) ?_ hfailed
      rintro result _ rfl
      have hacked := (idle_logDeliveryResult (payload.get "messageId")
        (payload.get "orderId")).bind
          (fun _ => awaits_await (show Idle (.settle .ack) from trivial))
      exact wp_mono (wp_idle_stage hacked) (fun _ _ h => h) hfailed

theorem wp_onMessage_stage (message : Content) :
    (onMessage config describe processOrderMessage message).wp (stageRules rank)
      (fun _ g => g = .idle) (fun _ g => g = .idle) .idle := by
  refine (wp_tryCatch _ _ _ _ _).mpr ?_
  refine wp_mono (wp_handleMessage_stage config describe message) (fun _ _ h => h) ?_
  rintro error _ rfl
  exact wp_idle_stage (awaits_await trivial)

end Consumer

section Create

/-- The locked product is re-read with its sku, so the save leaves it alone. -/
theorem wp_managerSave_stage {named : List (Uuid × String)} {p : Uuid} {entity : Product}
    (hp : (p, entity.sku) ∈ named) :
    (managerSave .products p entity).wp (stageRules rank) (fun _ g => g = .buying named)
      (fun _ _ => True) (.buying named) := by
  refine (wp_bind _ _ _ _ _).mpr ((wp_bind _ _ _ _ _).mpr (wp_stmt_stage trivial ?_))
  rintro rows g ⟨rfl, hfinds⟩
  obtain ⟨row, hsku, hhead⟩ := hfinds named rfl _ hp rfl
  simp only [pure_eq, wp_ret, hhead]
  split
  · rfl
  · refine (wp_bind _ _ _ _ _).mpr (wp_stmt_stage (.inr ⟨named, entity.sku, rfl, hp, ?_⟩) ?_)
    · intro now r hr
      have hrow : row.sku = entity.sku := hsku
      change column entity.sku row.sku r.sku = entity.sku
      rw [hrow, column, if_pos rfl]
      exact hr
    · intro a g hn
      have hg : g =
          if (show Option Product from a).isSome then .buying named else .buying named := hn
      rw [ite_self] at hg
      exact hg

theorem wp_createItem_stage {named : List (Uuid × String)} {orderId : Uuid}
    {item : CreateOrderItem} (horder : ∀ p, uuidIn item.productId = some p →
      p ∈ named.map (·.1) ∨ ∀ q ∈ named.map (·.1), rank q < rank p) :
    (createItem orderId item).wp (stageRules rank)
      (fun _ g => ∃ p sku, uuidIn item.productId = some p ∧ g = .buying ((p, sku) :: named))
      (fun _ _ => True) (.buying named) := by
  refine (wp_bind _ _ _ _ _).mpr ?_
  unfold findOneForUpdate
  cases hp : uuidIn item.productId with
  | none =>
    refine (wp_bind _ _ _ _ _).mpr (wp_stmt_stage trivial ?_)
    exact fun a => nomatch (show Empty from a)
  | some p =>
    refine (wp_bind _ _ _ _ _).mpr (wp_stmt_stage ⟨rfl, named, rfl, horder p hp⟩ ?_)
    intro row g hg
    cases row with
    | none => trivial
    | some product =>
      obtain rfl : g = .buying ((p, product.sku) :: named) := hg
      simp only [Option.map_some, pure_eq, wp_ret]
      split
      · trivial
      · split
        · trivial
        · refine (wp_bind _ _ _ _ _).mpr ?_
          refine wp_mono (wp_managerSave_stage List.mem_cons_self) ?_ (fun _ _ _ => trivial)
          rintro _ _ rfl
          refine wp_stmt_stage (.inr ⟨_, rfl, rfl, rfl⟩) ?_
          exact fun _ _ hn => ⟨p, product.sku, rfl, hn⟩

theorem wp_createItems_stage {orderId : Uuid} (items : List CreateOrderItem) :
    ∀ named : List (Uuid × String), InOrder rank (named.map (·.1)) items →
      (createItems orderId items).wp (stageRules rank) (fun _ g => ∃ named, g = .buying named)
        (fun _ _ => True) (.buying named) := by
  induction items with
  | nil => exact fun named _ => ⟨named, rfl⟩
  | cons item items ih =>
    intro named horder
    refine (wp_bind _ _ _ _ _).mpr ?_
    have hitem : ∀ p, uuidIn item.productId = some p →
        (p ∈ named.map (·.1) ∨ ∀ q ∈ named.map (·.1), rank q < rank p) ∧
          InOrder rank (p :: named.map (·.1)) items := by
      intro p hp
      simpa only [InOrder, hp] using horder
    refine wp_mono (wp_createItem_stage (fun p hp => (hitem p hp).1)) ?_ (fun _ _ _ => trivial)
    rintro savedItem _ ⟨p, sku, hp, rfl⟩
    refine (wp_bind _ _ _ _ _).mpr ?_
    refine wp_mono (ih ((p, sku) :: named) (hitem p hp).2) ?_ (fun _ _ _ => trivial)
    exact fun _ _ h => h

theorem wp_createInTransaction_stage {dto : CreateOrderDto} (horder : InOrder rank [] dto.items)
    (userId : Uuid) (key : Option String) :
    (createInTransaction dto userId key).wp (stageRules rank) (fun _ g => g = .idle)
      (fun _ _ => True) .fresh := by
  refine (wp_bind _ _ _ _ _).mpr (wp_stmt_stage (.inl (.inr (.inl rfl))) ?_)
  intro savedOrder g hg
  obtain rfl : g = .buying [] := hg
  refine (wp_bind _ _ _ _ _).mpr ?_
  refine wp_mono (wp_createItems_stage dto.items [] horder) ?_ (fun _ _ _ => trivial)
  rintro _ g ⟨named, rfl⟩
  refine (wp_bind _ _ _ _ _).mpr ?_
  refine wp_mono (wp_idle_anywhere (awaits_findOrderWithItems (fun _ _ => trivial) _) _) ?_
    (fun _ _ _ => trivial)
  intro found g _
  cases found with
  | none => trivial
  | some createdOrder =>
    refine (wp_bind _ _ _ _ _).mpr ((wp_await _ _ _ _).mpr ⟨trivial, ?_, fun _ _ _ => trivial⟩)
    exact fun _ _ hn => hn

theorem wp_createFailed_stage (key : Option String) (error : Thrown) (g : Stage) :
    (createFailed key error).wp (stageRules rank) (fun _ g => g = .idle) (fun _ g => g = .idle)
      g := by
  refine (wp_bind _ _ _ _ _).mpr ?_
  refine wp_mono (wp_rollback_stage g) ?_ (fun _ _ h => h)
  rintro _ _ rfl
  split
  · refine wp_idle_stage ((idle_findByKey key).bind (fun found => ?_))
    cases found <;> trivial
  · rfl

theorem wp_create_stage {dto : CreateOrderDto} (horder : InOrder rank [] dto.items)
    (idempotencyKey : Option String) :
    (create dto idempotencyKey).wp (stageRules rank) (fun _ g => g = .idle) (fun _ g => g = .idle)
      .idle := by
  refine (wp_bind _ _ _ _ _).mpr ?_
  refine wp_mono (wp_idle_stage (idle_findByKey _)) ?_ (fun _ _ h => h)
  rintro found _ rfl
  cases found with
  | some existingOrder => rfl
  | none =>
    dsimp only
    split
    · rfl
    · refine (wp_bind _ _ _ _ _).mpr ?_
      refine wp_mono (wp_idle_stage (awaits_findOneById (fun _ => trivial) (fun _ => trivial) _))
        ?_ (fun _ _ h => h)
      rintro user _ rfl
      cases user with
      | none => rfl
      | some user =>
        refine (wp_bind _ _ _ _ _).mpr ((wp_await _ _ _ _).mpr ⟨rfl, ?_, fun _ _ hn => hn⟩)
        intro _ g hn
        obtain rfl : g = .fresh := hn
        refine (wp_bind _ _ _ _ _).mpr ((wp_tryCatch _ _ _ _ _).mpr ((wp_bind _ _ _ _ _).mpr ?_))
        refine wp_mono (wp_createInTransaction_stage horder _ _) ?_ ?_
        · rintro createdOrder _ rfl
          refine wp_idle_stage (Awaits.bind ?_ (fun _ => trivial))
          exact awaits_publishOrderCreated trivial trivial (fun _ => trivial) createdOrder
        · intro error g _
          refine (wp_bind _ _ _ _ _).mpr ?_
          exact wp_mono (wp_createFailed_stage _ error g) (fun _ _ h => h) (fun _ _ h => h)

end Create

theorem wp_call_stage {call : ServiceCall} (horder : call.InOrder rank) :
    call.program.wp (stageRules rank) (fun _ g => g = .idle) (fun _ g => g = .idle) .idle := by
  cases call with
  | createOrder call =>
    refine (wp_bind _ _ _ _ _).mpr ?_
    exact wp_mono (wp_create_stage horder _) (fun _ _ h => h) (fun _ _ h => h)
  | updateOrder id updates =>
    refine (wp_bind _ _ _ _ _).mpr ?_
    exact wp_mono (wp_updateOrder_stage id updates) (fun _ _ h => h) (fun _ _ h => h)
  | createProduct dto =>
    refine (wp_bind _ _ _ _ _).mpr ?_
    exact wp_mono (wp_insert_stage _) (fun _ _ h => h) (fun _ _ h => h)
  | updateProduct id updates =>
    refine (wp_bind _ _ _ _ _).mpr ?_
    exact wp_mono (wp_updateProduct_stage id updates) (fun _ _ h => h) (fun _ _ h => h)
  | createUser hash email password roles scopes =>
    refine (wp_bind _ _ _ _ _).mpr ?_
    exact wp_mono (wp_createUser_stage hash email password roles scopes) (fun _ _ h => h)
      (fun _ _ h => h)
  | consume config describe message => exact wp_onMessage_stage config describe message

end Program

section Progress

variable {rank : Uuid → Nat} {c : Config app Unit} {γ : Nat → Stage} {i j : Nat}

def Unfinished (c : Config app Unit) (i : Nat) : Prop := ∃ o k, c.thread i = some (.op o k)

instance (c : Config app Unit) (i : Nat) : Decidable (Unfinished c i) :=
  match h : c.thread i with
  | some (.op o k) => .isTrue ⟨o, k, h⟩
  | some (.ret _) | some (.raise _) | none => .isFalse (by rw [Unfinished, h]; simp)

/-- No transaction sees a row with this id, and none is inserting one. -/
def Unused (s : AppState) (id : Uuid) : Prop :=
  ∀ t, (∀ i, (s.store.view i t).lookup id = none) ∧ s.store.owner (.row t id) = none

/-- Where a call stands: who waits for a lock stands before who has it. -/
def standing (rank : Uuid → Nat) (c : Config app Unit) (γ : Nat → Stage) (i : Nat) : ℕ ×ₗ ℕ :=
  match γ i with
  | .idle => toLex (0, 0)
  | .fresh => toLex (0, 0)
  | .marked => toLex (1, 0)
  | .buying _ =>
    match c.thread i with
    | some (.op (.sql (.stmt (.selectForUpdate _ p))) _) =>
      if c.shared.store.owner (.row .products p) = some i then toLex (3, 0) else toLex (2, rank p)
    | _ => toLex (3, 0)
  | .wrote => toLex (4, 0)

/-- A statement that cannot be run needs a lock that another transaction has. -/
theorem blocked_by {s : Store schema} {ch : Choice schema} {q : Stmt schema}
    (hnone : s.exec i ch (.stmt q) = none) (hfault : ch.fault = false)
    (hfresh : ∀ t row, q = .insert t none row → (s.view i t).lookup ch.id = none) :
    ∃ plan l j, q.plan (s.view i) ch = some plan ∧ l ∈ plan.locks ∧ s.owner l = some j ∧ j ≠ i := by
  have hplan : ∃ plan, q.plan (s.view i) ch = some plan := by
    cases q with
    | select | malformed => exact ⟨_, rfl⟩
    | selectForUpdate t id | update t id set =>
      simp only [Stmt.plan]
      split <;> exact ⟨_, rfl⟩
    | delete t id =>
      simp only [Stmt.plan]
      split
      · exact ⟨_, rfl⟩
      · split <;> exact ⟨_, rfl⟩
    | insert t id row =>
      cases id with
      | some id =>
        simp only [Stmt.plan]
        split <;> exact ⟨_, rfl⟩
      | none =>
        have hnew := hfresh t row rfl
        simp only [Stmt.plan, Option.getD_none, hnew]
        exact ⟨_, rfl⟩
  obtain ⟨plan, hplan⟩ := hplan
  simp only [Store.exec, hfault, hplan] at hnone
  have hlocks : ¬ plan.locks.all (s.free i) = true := by
    intro hall
    rw [if_pos hall] at hnone
    split at hnone
    · cases hnone
    · split at hnone
      · cases hnone
      · split at hnone <;> cases hnone
  simp only [List.all_eq_true, not_forall] at hlocks
  obtain ⟨l, hl, hfree⟩ := hlocks
  rw [Store.free_iff, not_or] at hfree
  obtain ⟨j, hj⟩ := Option.ne_none_iff_exists'.mp hfree.1
  refine ⟨plan, l, j, hplan, hl, hj, ?_⟩
  rintro rfl
  exact hfree.2 hj

theorem plan_locks {T : Database} {ch : Choice schema} {q : Stmt schema} {plan : Plan schema q.Ans}
    {l : Resource schema} (hplan : q.plan T ch = some plan) (hl : l ∈ plan.locks) :
    (∃ t p, q = .selectForUpdate t p ∧ l = .row t p) ∨
    (∃ t id row, q = .insert t id row ∧
      l ∈ (⟨t, Option.getD id ch.id, some (row ch.now)⟩ : Write schema).locks T) ∨
    (∃ t p set old, q = .update t p set ∧ (T t).lookup p = some old ∧
      l ∈ (⟨t, p, some (set ch.now old)⟩ : Write schema).locks T) ∨
    ∃ t p, q = .delete t p := by
  cases q with
  | select | malformed =>
    obtain rfl := Option.some.inj hplan
    cases hl
  | delete t p => exact .inr (.inr (.inr ⟨t, p, rfl⟩))
  | selectForUpdate t p =>
    simp only [Stmt.plan] at hplan
    split at hplan
    · obtain rfl := Option.some.inj hplan
      cases hl
    · obtain rfl := Option.some.inj hplan
      exact .inl ⟨t, p, rfl, List.mem_singleton.mp hl⟩
  | insert t id row =>
    simp only [Stmt.plan] at hplan
    split at hplan
    · split at hplan
      · cases hplan
      · obtain rfl := Option.some.inj hplan
        exact .inr (.inl ⟨t, id, row, rfl, hl⟩)
    · obtain rfl := Option.some.inj hplan
      exact .inr (.inl ⟨t, id, row, rfl, hl⟩)
  | update t p set =>
    simp only [Stmt.plan] at hplan
    split at hplan
    · obtain rfl := Option.some.inj hplan
      cases hl
    · next old hold =>
      obtain rfl := Option.some.inj hplan
      exact .inr (.inr (.inl ⟨t, p, set, old, rfl, hold, hl⟩))

variable {Q : Nat → Unit → Stage → Prop} {E : Nat → Thrown → Stage → Prop}

theorem standing_buying {named : List (Uuid × String)} (hg : γ j = .buying named) :
    toLex (2, 0) ≤ standing rank c γ j := by
  simp only [standing, hg]
  split
  · split
    · exact Prod.Lex.toLex_le_toLex.mpr (.inl (by decide))
    · exact Prod.Lex.toLex_le_toLex.mpr (.inr ⟨rfl, Nat.zero_le _⟩)
  · exact Prod.Lex.toLex_le_toLex.mpr (.inl (by decide))

/-- Who has a lock is not at the start. -/
theorem standing_owner (hc : Staged c.shared γ) {l : Resource schema}
    (howner : c.shared.store.owner l = some j) :
    γ j = .marked ∧ (∃ m, l = .row .processedMessages m) ∨ (∃ named, γ j = .buying named) ∨
      γ j = .wrote := by
  obtain ⟨x, hx⟩ := hc.coherent.ownerOpen l j howner
  have hstage := hc.stage j
  cases hg : γ j with
  | idle =>
    rw [hg] at hstage
    have hnone : c.shared.store.tx j = none := hstage
    rw [hx] at hnone
    cases hnone
  | fresh =>
    rw [hg] at hstage
    exact absurd howner (hstage.2 l)
  | marked =>
    rw [hg] at hstage
    exact .inl ⟨rfl, hstage.2 l howner⟩
  | buying named => exact .inr (.inl ⟨named, rfl⟩)
  | wrote => exact .inr (.inr rfl)

theorem standing_pos (hc : Staged c.shared γ) {l : Resource schema}
    (howner : c.shared.store.owner l = some j) : toLex (0, 0) < standing rank c γ j := by
  rcases standing_owner hc howner with ⟨hg, _⟩ | ⟨named, hg⟩ | hg
  · simp only [standing, hg]
    decide
  · exact lt_of_lt_of_le (by decide) (standing_buying hg)
  · simp only [standing, hg]
    decide

theorem standing_unmarked (hc : Staged c.shared γ) {l : Resource schema}
    (howner : c.shared.store.owner l = some j) (hl : ∀ m, l ≠ .row .processedMessages m) :
    toLex (1, 0) < standing rank c γ j := by
  rcases standing_owner hc howner with ⟨_, m, hm⟩ | ⟨named, hg⟩ | hg
  · exact absurd hm (hl m)
  · exact lt_of_lt_of_le (by decide) (standing_buying hg)
  · simp only [standing, hg]
    decide

/-- Whoever has the product that a purchase waits for waits for a later one. -/
theorem standing_later (hc : Follows (stageRules rank) Staged Q E c γ) {p : Uuid}
    (howner : c.shared.store.owner (.row .products p) = some j) :
    toLex (2, rank p) < standing rank c γ j := by
  rcases standing_owner hc.inv howner with ⟨_, m, hm⟩ | ⟨named, hg⟩ | hg
  · cases hm
  · have hb : Buying c.shared.store j named := by
      have hstage := hc.inv.stage j
      rw [hg] at hstage
      exact hstage
    have hp := (hb.rows p).mp howner
    simp only [standing, hg]
    split
    · next t p' k hthread =>
      split
      · exact Prod.Lex.toLex_lt_toLex.mpr (.inl (by simp))
      · next hother =>
        have hallowed : stageAllowed rank (γ j) (.sql (.stmt (.selectForUpdate t p'))) :=
          (hc.thread j _ hthread).1
        obtain ⟨rfl, named', hg', horder⟩ := hallowed
        obtain rfl := Stage.buying.inj (hg.symm.trans hg')
        have hnot : p' ∉ named.map (·.1) := fun hmem => hother ((hb.rows p').mpr hmem)
        exact Prod.Lex.toLex_lt_toLex.mpr (.inr ⟨rfl, horder.resolve_left hnot p hp⟩)
    · exact Prod.Lex.toLex_lt_toLex.mpr (.inl (by simp))
  · simp only [standing, hg]
    exact Prod.Lex.toLex_lt_toLex.mpr (.inl (by simp))

/-- Two purchases that have the sku of a product locked have one product. -/
theorem sku_owner (hc : Staged c.shared γ) {named : List (Uuid × String)} {p : Uuid} {s : String}
    (hg : γ i = .buying named) (hp : (p, s) ∈ named)
    (howner : c.shared.store.owner (.key (.sku s)) = some j) (hji : j ≠ i) : γ j = .wrote := by
  have hb : Buying c.shared.store i named := by
    have hstage := hc.stage i
    rw [hg] at hstage
    exact hstage
  rcases standing_owner hc howner with ⟨_, m, hm⟩ | ⟨named', hg'⟩ | hg'
  · cases hm
  · have hb' : Buying c.shared.store j named' := by
      have hstage := hc.stage j
      rw [hg'] at hstage
      exact hstage
    obtain ⟨e, he, rfl⟩ := List.mem_map.mp (hb'.keys s howner)
    obtain ⟨r, hr, hsku⟩ := hb.committed _ hp
    obtain ⟨r', hr', hsku'⟩ := hb'.committed e he
    have hsame : p = e.1 := by
      refine hc.coherent.distinct .products p e.1 r r' (.sku e.2) hr hr' ?_ ?_
      · simp [uniqueKeys, hsku]
      · simp [uniqueKeys, hsku']
    have hi := (hb.rows p).mpr (List.mem_map_of_mem hp)
    have hj := (hb'.rows e.1).mpr (List.mem_map_of_mem he)
    rw [hsame, hj] at hi
    exact absurd (Option.some.inj hi) hji
  · exact hg'

theorem row_lock {T : Database} {t : Table} {id : Uuid} {r : t.Row} {u : Table} {p : Uuid}
    (hl : (.row u p : Resource schema) ∈ (⟨t, id, some r⟩ : Write schema).locks T) : u = t := by
  rcases write_lock_cases hl with hl | ⟨k, hk, _⟩
  · exact (Resource.row.inj hl).1
  · cases hk

/-- The call that waits stands before the one that it waits for. -/
theorem standing_lt (hc : Follows (stageRules rank) Staged Q E c γ) {ch : Choice schema}
    {q : Stmt schema} {k : Except Thrown (AppOp.sql (.stmt q)).Ans → App Unit}
    (hthread : c.thread i = some (.op (.sql (.stmt q)) k)) {plan : Plan schema q.Ans}
    (hplan : q.plan (c.shared.store.view i) ch = some plan) {l : Resource schema}
    (hl : l ∈ plan.locks) (howner : c.shared.store.owner l = some j) (hji : j ≠ i)
    (hunused : Unused c.shared ch.id) : standing rank c γ i < standing rank c γ j := by
  have hallowed : stageAllowed rank (γ i) (.sql (.stmt q)) := (hc.thread i _ hthread).1
  have hlocks := plan_locks hplan hl
  cases hg : γ i with
  | idle | fresh =>
    have hi : standing rank c γ i = toLex (0, 0) := by simp only [standing, hg]
    rw [hi]
    exact standing_pos hc.inv howner
  | marked =>
    have hi : standing rank c γ i = toLex (1, 0) := by simp only [standing, hg]
    rw [hi]
    refine standing_unmarked hc.inv howner ?_
    rintro m rfl
    rw [hg] at hallowed
    rcases hlocks with ⟨t, p, rfl, _⟩ | ⟨t, id, row, rfl, hrow⟩ | ⟨t, p, set, old, rfl, _, hrow⟩ |
      ⟨t, p, rfl⟩
    · obtain ⟨_, named, hnamed, _⟩ := hallowed
      cases hnamed
    · obtain rfl := row_lock hrow
      rcases hallowed with (h | h | ⟨_, h⟩) | ⟨named, h, _⟩
      · cases h
      · cases h
      · exact h rfl
      · cases h
    · obtain rfl := row_lock hrow
      rcases hallowed with h | h | ⟨_, h⟩
      · cases h
      · cases h
      · exact h rfl
    · exact hallowed
  | wrote =>
    rw [hg] at hallowed
    rcases hlocks with ⟨t, p, rfl, _⟩ | ⟨t, id, row, rfl, _⟩ | ⟨t, p, set, old, rfl, _, _⟩ |
      ⟨t, p, rfl⟩
    · obtain ⟨_, named, hnamed, _⟩ := hallowed
      cases hnamed
    · rcases hallowed with (h | h | ⟨h, _⟩) | ⟨named, h, _⟩ <;> cases h
    · cases t with
      | products => rcases hallowed with (h | h | ⟨h, _⟩) | ⟨named, s, h, _⟩ <;> cases h
      | users | orders | orderItems | processedMessages =>
        rcases hallowed with h | h | ⟨h, _⟩ <;> cases h
    · exact hallowed.elim
  | buying named =>
    have hb : Buying c.shared.store i named := by
      have hstage := hc.inv.stage i
      rw [hg] at hstage
      exact hstage
    rw [hg] at hallowed
    rcases hlocks with ⟨t, p, rfl, rfl⟩ | ⟨t, id, row, rfl, hrow⟩ |
      ⟨t, p, set, old, rfl, hold, hrow⟩ | ⟨t, p, rfl⟩
    · obtain ⟨rfl, _⟩ := hallowed
      have hi : standing rank c γ i = toLex (2, rank p) := by
        have hne : ¬ c.shared.store.owner (.row .products p) = some i := by
          rw [howner]
          exact fun h => hji (Option.some.inj h)
        simp only [standing, hg, hthread, if_neg hne]
      rw [hi]
      exact standing_later hc howner
    · rcases hallowed with (h | h | ⟨h, _⟩) | ⟨_, _, rfl, rfl⟩
      · cases h
      · cases h
      · cases h
      · rcases write_lock_cases hrow with rfl | ⟨key, _, hkey⟩
        · rw [Option.getD_none, (hunused .orderItems).2] at howner
          cases howner
        · simp [uniqueKeys] at hkey
    · cases t with
      | users | orders | orderItems | processedMessages =>
        rcases hallowed with h | h | ⟨h, _⟩ <;> cases h
      | products =>
        rcases hallowed with (h | h | ⟨h, _⟩) | ⟨_, s, hnamed, hp, hset⟩
        · cases h
        · cases h
        · cases h
        · obtain rfl := Stage.buying.inj hnamed
          obtain ⟨r, hr, hsku⟩ := hb.seen _ hp
          obtain rfl := Option.some.inj (hr.symm.trans hold)
          have hwrote : γ j = .wrote := by
            rcases write_lock_cases hrow with rfl | ⟨key, rfl, hkey⟩
            · have hown := (hb.rows p).mpr (List.mem_map_of_mem hp)
              exact absurd (Option.some.inj (howner.symm.trans hown)) hji
            · have hkey' : key = .sku s := by
                rcases hkey with ⟨old, hold', hkey⟩ | hkey
                · obtain rfl := Option.some.inj (hold'.symm.trans hr)
                  simpa [uniqueKeys, hsku] using hkey
                · simpa [uniqueKeys, hset ch.now r hsku] using hkey
              subst hkey'
              exact sku_owner hc.inv hg hp howner hji
          have hi : standing rank c γ i = toLex (3, 0) := by simp only [standing, hg, hthread]
          have hj : standing rank c γ j = toLex (4, 0) := by simp only [standing, hwrote]
          rw [hi, hj]
          decide
    · exact hallowed.elim

theorem exec_none {s : AppState} {ch : AppChoice} {o : AppOp} (h : s.exec i ch o = none) :
    ∃ q, o = .sql (.stmt q) ∧ s.store.exec i ch.sql (.stmt q) = none := by
  cases o with
  | sendToQueue m =>
    simp only [AppState.exec] at h
    split at h <;> cases h
  | channelReady | settle _ | publishStatusChanged _ | randomUUID | dateNow => cases h
  | sql o =>
    have hstore : s.store.exec i ch.sql o = none := by
      simp only [AppState.exec] at h
      split at h
      · cases h
      · cases h
      · assumption
    cases o with
    | stmt q => exact ⟨q, rfl, hstore⟩
    | startTransaction | rollbackTransaction =>
      simp only [Store.exec] at hstore
      split at hstore <;> cases hstore
    | commitTransaction =>
      simp only [Store.exec] at hstore
      split at hstore
      · cases hstore
      · split at hstore
        · cases hstore
        · split at hstore <;> cases hstore

theorem run_absent {c c' : Config app Unit} {es : List (Nat × AppChoice)}
    (h : c.run es = some c') (hi : c'.thread i = none) : ∀ e ∈ es, e.1 ≠ i := by
  induction es generalizing c with
  | nil => exact nofun
  | cons e es ih =>
    obtain ⟨d, hd, hrest⟩ := Config.run_cons h
    have hes := ih hrest
    refine List.forall_mem_cons.mpr ⟨?_, hes⟩
    rintro rfl
    obtain ⟨o, k, r, s, _, _, rfl⟩ := Config.step_cases hd
    rw [Config.run_idle hrest hes] at hi
    simp at hi

theorem run_threads {c c' : Config app Unit} {es : List (Nat × AppChoice)} {n : Nat}
    (h : c.run es = some c') (hn : ∀ i, n ≤ i → c.thread i = none) :
    ∀ i, n ≤ i → c'.thread i = none := by
  refine Config.run_induction (I := fun d => ∀ i, n ≤ i → d.thread i = none) ?_ hn h
  intro d d' j ch hd hstep i hi
  obtain ⟨o, k, r, s, hthread, _, rfl⟩ := Config.step_cases hstep
  have hij : i ≠ j := by
    rintro rfl
    rw [hd i hi] at hthread
    cases hthread
  simp only [Function.update_of_ne hij]
  exact hd i hi

theorem calls_follow {s : AppState} (hs : s.Quiet) {calls : List ServiceCall}
    (hcalls : ∀ call ∈ calls, call.InOrder rank) :
    Follows (stageRules rank) Staged (fun _ _ g => g = .idle) (fun _ _ g => g = .idle)
      (calling s calls) (fun _ => .idle) where
  inv := ⟨hs.coherent, hs.tx⟩
  thread i p hp := by
    obtain ⟨call, hcall, rfl⟩ := Option.map_eq_some_iff.mp hp
    exact wp_call_stage (hcalls call (List.mem_of_getElem? hcall))

def crossed : List ServiceCall :=
  [.createOrder (oneEach [2, 3]), .createOrder (oneEach [3]),
    .updateProduct (uuidOut 2) ⟨none, none, none, some 4, none, none⟩]

end Progress

end Ecomm
