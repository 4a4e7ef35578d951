import Ecomm.Lib.Solo
import Ecomm.Awaited
import Ecomm.CreateOrders
import Ecomm.Handling

/-! Operations executed one after another. Each of them ends its transactions
and deletes nothing, so the next one starts from committed rows. -/

namespace Ecomm

open Concurrent Sql

def tidyAllowed (b : Bool) : AppOp → Prop
  | .sql .startTransaction => b = false
  | .sql (.stmt (.delete _ _)) => False
  | _ => True

def opens (b : Bool) : (o : AppOp) → Except Thrown o.Ans → Bool
  | .sql o, r => o.opens b r
  | _, _ => b

/-- The ghost state says whether the thread has a transaction open. -/
def tidyRules : Protocol AppOp AppOp.Ans Thrown Bool where
  allowed := tidyAllowed
  next b o r b' := b' = opens b o r

variable {α β : Type}

def Keeps (p : App α) : Prop :=
  ∀ b, p.wp tidyRules (fun _ b' => b' = b) (fun _ b' => b' = b) b

def Tidy (p : App α) : Prop :=
  p.wp tidyRules (fun _ b => b = false) (fun _ b => b = false) false

theorem keeps_pure (a : α) : Keeps (pure a) := fun _ => rfl

theorem keeps_throw (e : Thrown) : Keeps (throw e : App α) := fun _ => rfl

theorem Keeps.bind {p : App α} {f : α → App β} (hp : Keeps p) (hf : ∀ a, Keeps (f a)) :
    Keeps (p >>= f) := by
  intro b
  refine (Prog.wp_bind _ _ _ _ _).mpr (Prog.wp_mono (hp b) ?_ (fun _ _ h => h))
  rintro a _ rfl
  exact hf a _

/-- What a program may await inside a transaction or outside of one. -/
def Neutral : AppOp → Prop
  | .sql (.stmt (.delete _ _)) => False
  | .sql (.stmt _) => True
  | .sql _ => False
  | _ => True

theorem keeps_awaits {p : App α} (hp : p.Awaits Neutral) : Keeps p := by
  intro b
  refine Prog.Awaits.wp (I := fun b' => b' = b) ?_ hp rfl
  intro b' o hb ho
  subst hb
  cases o with
  | sql q =>
    cases q with
    | stmt q => cases q <;> first | exact ho.elim | exact ⟨trivial, fun _ _ hn => hn⟩
    | startTransaction | commitTransaction | rollbackTransaction => exact ho.elim
  | channelReady | sendToQueue | settle | publishStatusChanged | randomUUID | dateNow =>
    exact ⟨trivial, fun _ _ hn => hn⟩

theorem keeps_await {o : AppOp} (ho : Neutral o) : Keeps (await o) :=
  keeps_awaits (Prog.awaits_await ho)

theorem keeps_findOne (t : Table) (cond : Uuid → t.Row → Bool) : Keeps (findOne t cond) :=
  keeps_awaits (awaits_findOne trivial)

theorem keeps_findOneById (t : Table) (id : String) : Keeps (findOneById t id) :=
  keeps_awaits (awaits_findOneById (fun _ => trivial) (fun _ => trivial) id)

theorem keeps_insert (t : Table) (id : Option Uuid) (row : Nat → t.Row) : Keeps (insert t id row) :=
  keeps_await trivial

theorem keeps_writeEntity (t : Table) (id : Uuid) (entity : t.Row)
    (found : Option (Uuid × t.Row)) : Keeps (writeEntity t id entity found) :=
  keeps_awaits (awaits_writeEntity trivial (fun _ => trivial) found)

theorem keeps_findOrderWithItems (cond : Uuid → Order → Bool) :
    Keeps (findOrderWithItems cond) :=
  keeps_awaits (awaits_findOrderWithItems (fun _ _ => trivial) cond)

theorem keeps_findByKey (key : Option String) : Keeps (findByKey key) :=
  keeps_awaits (awaits_findByKey (fun _ _ => trivial) key)

theorem keeps_createItems (orderId : Uuid) (items : List CreateOrderItem) :
    Keeps (createItems orderId items) :=
  keeps_awaits (awaits_createItems (fun _ => trivial) (fun _ => trivial) (fun _ => trivial)
    (fun _ _ => trivial) (fun _ _ => trivial) (fun _ => trivial) orderId items)

theorem keeps_publishOrderCreated (order : OrderEntity) : Keeps (publishOrderCreated order) :=
  keeps_awaits (awaits_publishOrderCreated trivial trivial (fun _ => trivial) order)

theorem keeps_processInTransaction (message : Json.Fields) :
    Keeps (processInTransaction message) :=
  keeps_awaits (awaits_processInTransaction (fun _ _ _ _ => trivial) (fun _ => trivial)
    (fun _ => trivial) (fun _ _ => trivial) trivial message)

theorem Keeps.tidy {p : App α} (hp : Keeps p) : Tidy p := hp false

theorem Tidy.bind {p : App α} {f : α → App β} (hp : Tidy p) (hf : ∀ a, Tidy (f a)) :
    Tidy (p >>= f) := by
  refine (Prog.wp_bind _ _ _ _ _).mpr (Prog.wp_mono hp ?_ (fun _ _ h => h))
  rintro a _ rfl
  exact hf a

/-- A commit or a rollback ends the transaction, also when it fails. -/
theorem wp_end {o : Op schema} (ho : o = .commitTransaction ∨ o = .rollbackTransaction) (b : Bool) :
    (sql o).wp tidyRules (fun _ b => b = false) (fun _ b => b = false) b := by
  refine (Prog.wp_await _ _ _ _).mpr ?_
  rcases ho with rfl | rfl <;> exact ⟨trivial, fun _ _ hn => hn, fun _ _ hn => hn⟩

theorem tidy_transaction {body : App α} (hb : Keeps body) : Tidy (transaction body) := by
  have hcatch : ∀ (e : Thrown) b, (do
      try rollbackTransaction catch _ => pure ()
      throw e : App α).wp tidyRules (fun _ b => b = false) (fun _ b => b = false) b := by
    intro e b
    refine (Prog.wp_bind _ _ _ _ _).mpr ((Prog.wp_tryCatch _ _ _ _ _).mpr ?_)
    exact Prog.wp_mono (wp_end (.inr rfl) b) (fun _ _ h => h) (fun _ _ h => h)
  refine (Prog.wp_tryCatch _ _ _ _ _).mpr ((Prog.wp_bind _ _ _ _ _).mpr ?_)
  refine (Prog.wp_await _ _ _ _).mpr ⟨rfl, ?_, fun e b _ => hcatch e b⟩
  rintro _ _ rfl
  refine (Prog.wp_bind _ _ _ _ _).mpr (Prog.wp_mono (hb _) ?_ (fun e b _ => hcatch e b))
  intro a b _
  refine (Prog.wp_bind _ _ _ _ _).mpr ?_
  exact Prog.wp_mono (wp_end (.inl rfl) b) (fun _ _ h => h) (fun e b _ => hcatch e b)

theorem tidy_processOrderMessage (message : Json.Fields) : Tidy (processOrderMessage message) := by
  refine (tidy_transaction (keeps_processInTransaction message)).bind (fun result => ?_)
  cases result with
  | deduplicated => exact (keeps_pure _).tidy
  | unchanged id order => exact (keeps_pure _).tidy
  | statusChanged id order =>
    refine Keeps.tidy (Keeps.bind (keeps_await (o := .dateNow) trivial) (fun ts => ?_))
    exact Keeps.bind (keeps_await (o := .publishStatusChanged _) trivial) (fun _ => keeps_pure _)

theorem tidy_repositorySave (t : Table) (id : Uuid) (entity : t.Row) :
    Tidy (repositorySave t id entity) := by
  refine (keeps_findOne t _).tidy.bind (fun found => ?_)
  split
  · exact (keeps_pure _).tidy
  · exact tidy_transaction (keeps_writeEntity t id entity found)

theorem tidy_updateOrder (id : String) (updates : UpdateOrderDto) : Tidy (updateOrder id updates) := by
  refine (keeps_findOneById .orders id).tidy.bind (fun found => ?_)
  cases found with
  | none => exact (keeps_throw _).tidy
  | some e =>
    refine (tidy_repositorySave .orders _ _).bind (fun saved => ?_)
    split
    · refine Keeps.tidy (Keeps.bind (keeps_await (o := .dateNow) trivial) (fun ts => ?_))
      exact Keeps.bind (keeps_await (o := .publishStatusChanged _) trivial) (fun _ => keeps_pure _)
    · exact (keeps_pure _).tidy

theorem wp_createInTransaction_tidy (dto : CreateOrderDto) (userId : Uuid) (key : Option String) :
    (createInTransaction dto userId key).wp tidyRules (fun _ b => b = false) (fun _ _ => True)
      true := by
  refine (Prog.wp_bind _ _ _ _ _).mpr (Prog.wp_mono (keeps_insert .orders _ _ true) ?_
    (fun _ _ _ => trivial))
  rintro savedOrder _ rfl
  refine (Prog.wp_bind _ _ _ _ _).mpr (Prog.wp_mono (keeps_createItems _ _ true) ?_
    (fun _ _ _ => trivial))
  rintro _ _ rfl
  refine (Prog.wp_bind _ _ _ _ _).mpr (Prog.wp_mono (keeps_findOrderWithItems _ true) ?_
    (fun _ _ _ => trivial))
  rintro found _ rfl
  cases found with
  | none => trivial
  | some createdOrder =>
    refine (Prog.wp_bind _ _ _ _ _).mpr ?_
    exact Prog.wp_mono (wp_end (.inl rfl) true) (fun _ _ h => h) (fun _ _ _ => trivial)

theorem wp_createFailed_tidy (key : Option String) (error : Thrown) (b : Bool) :
    (createFailed key error).wp tidyRules (fun _ b => b = false) (fun _ b => b = false) b := by
  refine (Prog.wp_bind _ _ _ _ _).mpr (Prog.wp_mono (wp_end (.inr rfl) b) ?_ (fun _ _ h => h))
  rintro _ _ rfl
  split
  · refine Tidy.bind (keeps_findByKey key).tidy (fun found => ?_)
    cases found with
    | none => exact (keeps_throw _).tidy
    | some e => exact (keeps_pure _).tidy
  · exact (keeps_throw _).tidy

theorem tidy_createOrder (dto : CreateOrderDto) (userId : Uuid) (key : Option String) :
    Tidy (createOrder dto userId key) := by
  refine (Prog.wp_bind _ _ _ _ _).mpr ?_
  refine (Prog.wp_await _ _ _ _).mpr ⟨rfl, ?_, fun _ _ hn => hn⟩
  rintro _ _ rfl
  refine (Prog.wp_bind _ _ _ _ _).mpr ((Prog.wp_tryCatch _ _ _ _ _).mpr ?_)
  refine (Prog.wp_bind _ _ _ _ _).mpr ?_
  refine Prog.wp_mono (wp_createInTransaction_tidy dto userId key) ?_ ?_
  · rintro createdOrder _ rfl
    exact Keeps.tidy ((keeps_publishOrderCreated createdOrder).bind (fun _ => keeps_pure _))
  · intro error b _
    refine (Prog.wp_bind _ _ _ _ _).mpr ?_
    exact Prog.wp_mono (wp_createFailed_tidy key error b) (fun _ _ h => h) (fun _ _ h => h)

theorem tidy_create (dto : CreateOrderDto) (idempotencyKey : Option String) :
    Tidy (create dto idempotencyKey) := by
  refine (keeps_findByKey _).tidy.bind (fun found => ?_)
  cases found with
  | some e => exact (keeps_pure _).tidy
  | none =>
    dsimp only
    split
    · exact (keeps_throw _).tidy
    · refine (keeps_findOneById .users _).tidy.bind (fun user => ?_)
      cases user with
      | none => exact (keeps_throw _).tidy
      | some u => exact tidy_createOrder dto _ _

structure Resting (T : Database) (s : AppState) : Prop where
  coherent : s.store.Coherent
  tx : ∀ i, s.store.tx i = none
  rows : ∀ t id, ((T t).lookup id).isSome = true → ((s.store.tables t).lookup id).isSome = true

theorem Resting.turn {T : Database} {s : AppState} (h : Resting T s) (i : Nat) :
    s.store.Turn T i false where
  coherent := h.coherent
  own := by simp [h.tx]
  others j _ := h.tx j
  writes x hx := by simp [h.tx] at hx
  rows := h.rows

theorem Resting.of_turn {T : Database} {s : AppState} {i : Nat} (h : s.store.Turn T i false) :
    Resting T s where
  coherent := h.coherent
  tx j := by
    by_cases hj : j = i
    · subst hj
      simpa using h.own
    · exact h.others j hj
  rows := h.rows

theorem Resting.begin {T : Database} {s : AppState} (h : Resting T s) :
    Resting s.store.tables s :=
  ⟨h.coherent, h.tx, fun _ _ hr => hr⟩

theorem Tidy.resting {p : App α} (hp : Tidy p) {T : Database} {s s' : AppState} (hs : Resting T s)
    {i : Nat} {chs : List AppChoice} {r : Except Thrown α}
    (h : p.eval app i s chs = some (r, s')) : Resting T s' := by
  have hwp := Prog.wp_simulation (K := Prog.alone app i)
    (R := fun b (s : AppState) => s.store.Turn T i b) ?_ (hs.turn i) hp
  · have hend := Prog.eval_outcome hwp h
    cases r with
    | ok a =>
      obtain ⟨_, hturn, rfl⟩ := hend
      exact .of_turn hturn
    | error e =>
      obtain ⟨_, hturn, rfl⟩ := hend
      exact .of_turn hturn
  · intro b s o hturn ha
    refine ⟨trivial, ?_⟩
    rintro r s' ⟨ch, he⟩
    have he : s.exec i ch o = some (r, s') := he
    refine ⟨opens b o r, rfl, ?_⟩
    cases o with
    | sql q =>
      obtain ⟨a, store, hexec, rfl, rfl⟩ := AppState.exec_sql he
      have hnext := hturn.exec hexec (by rintro t id rfl; exact ha)
      cases q <;> cases a <;> exact hnext
    | channelReady | randomUUID | dateNow | settle _ | publishStatusChanged _ | sendToQueue _ =>
      rw [AppState.exec_store he (by simp)]
      exact hturn

inductive Operation where
  | create (call : CreateCall)
  | order (job : OrderJob)

def Operation.program : Operation → App (CreateResult ⊕ JobResult)
  | create call => do
    let result ← call.program
    pure (.inl result)
  | order job => do
    let result ← job.program
    pure (.inr result)

theorem tidy_operation (operation : Operation) : Tidy operation.program := by
  cases operation with
  | create call => exact (tidy_create _ _).bind (fun _ => (keeps_pure _).tidy)
  | order job =>
    refine Tidy.bind ?_ (fun _ => (keeps_pure _).tidy)
    cases job with
    | process message =>
      exact (tidy_processOrderMessage message).bind (fun _ => (keeps_pure _).tidy)
    | update id updates => exact (tidy_updateOrder id updates).bind (fun _ => (keeps_pure _).tidy)

structure Run where
  thread : Nat
  operation : Operation
  choices : List AppChoice

def sequence : AppState → List Run → Option AppState
  | s, [] => some s
  | s, run :: rest =>
    match run.operation.program.eval app run.thread s run.choices with
    | some (_, s') => sequence s' rest
    | none => none

theorem sequence_resting {T : Database} {s s' : AppState} {runs : List Run} (hs : Resting T s)
    (h : sequence s runs = some s') : Resting T s' := by
  induction runs generalizing s with
  | nil =>
    obtain rfl := Option.some.inj h
    exact hs
  | cons run rest ih =>
    cases he : run.operation.program.eval app run.thread s run.choices with
    | none => simp [sequence, he] at h
    | some result =>
      obtain ⟨r, d⟩ := result
      simp only [sequence, he] at h
      exact ih ((tidy_operation run.operation).resting hs he) h

end Ecomm
