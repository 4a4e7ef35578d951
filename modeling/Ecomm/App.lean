import Ecomm.Lib.Coherent
import Ecomm.Entities
import Ecomm.Json

/-! The operations that the services await, and the shared state they act on:
the database, the broker with its unsettled deliveries, and the stream of
status events. -/

namespace Ecomm

inductive Thrown where
  | sql (e : Sql.SqlError)
  | badRequest (message : String)
  | notFound (message : String)
  | conflict (message : String)
  | forbidden (message : String)
  | unauthorized (message : String)
  | wsException (message : String)
  | error (message : String)
  | typeError (message : String)
  | rangeError (message : String)
  | channelClosed
  deriving DecidableEq

structure OrderStatusChangedEvent where
  orderId : Uuid
  status : OrderStatus
  version : Nat
  ts : Nat
  deriving DecidableEq

structure PublishOptions where
  messageId : Option Json
  correlationId : Option Json
  timestamp : Option Nat
  expiration : Option String

/-- The body of a message: the value that its text parses to, or bytes that
`JSON.parse` refuses. -/
inductive Content where
  | json (v : Json)
  | invalid (raw : List UInt8)

structure Published where
  queue : String
  payload : Json
  options : PublishOptions

inductive Settlement where
  | ack
  | nack (requeue : Bool)
  deriving DecidableEq

inductive AppOp where
  | sql (o : Sql.Op schema)
  | channelReady
  | sendToQueue (message : Published)
  | settle (how : Settlement)
  | publishStatusChanged (event : OrderStatusChangedEvent)
  | randomUUID
  | dateNow

@[reducible] def AppOp.Ans : AppOp → Type
  | sql o => o.Ans
  | channelReady => Bool
  | sendToQueue _ => Bool
  | settle _ => Unit
  | publishStatusChanged _ => Unit
  | randomUUID => Uuid
  | dateNow => Nat

abbrev App := Concurrent.Prog AppOp AppOp.Ans Thrown

/-- `sendToQueue` answers whether the write buffer has room; it throws on a
closed channel. -/
inductive SendResult where
  | accepted
  | buffered
  | refused
  | closed
  deriving DecidableEq

structure AppChoice where
  sql : Sql.Choice schema
  send : SendResult
  uuid : Uuid
  now : Nat

/-- `published` and `events` list what each thread handed to the broker and to
the event stream, `settled` the acknowledgements and returns of its delivery
that each thread sent, and `clockReads` the threads that read the clock, all in order. -/
structure AppState where
  store : Sql.Store schema
  channelReady : Bool
  queue : String → List Content
  published : List (Nat × Published)
  unacked : Nat → Option Content
  settled : List (Nat × Settlement)
  events : List (Nat × OrderStatusChangedEvent)
  clockReads : List Nat

namespace AppState

def enqueue (s : AppState) (q : String) (body : Content) : AppState :=
  { s with queue := Function.update s.queue q (s.queue q ++ [body]) }

def handOver (s : AppState) (i : Nat) (m : Published) : AppState :=
  { s.enqueue m.queue (.json m.payload.stringified) with published := s.published ++ [(i, m)] }

def processQueue : String := "orders.process"
def retryQueue : String := "orders.retry.process"
def dlqQueue : String := "orders.dlq"

/-- Settling ends a delivery; with requeue its message is put back. -/
def settle (s : AppState) (i : Nat) (how : Settlement) : AppState :=
  let s : AppState := { s with settled := s.settled ++ [(i, how)] }
  match s.unacked i with
  | none => s
  | some body =>
    let s' : AppState := match how with
      | .nack true => s.enqueue processQueue body
      | _ => s
    { s' with unacked := Function.update s.unacked i none }

def exec (s : AppState) (i : Nat) (c : AppChoice) :
    (o : AppOp) → Option (Except Thrown o.Ans × AppState)
  | .sql o =>
    match s.store.exec i c.sql o with
    | some (.ok a, store) => some (.ok a, { s with store })
    | some (.error e, store) => some (.error (.sql e), { s with store })
    | none => none
  | .channelReady => some (.ok s.channelReady, s)
  | .sendToQueue m =>
    match c.send with
    | .accepted => some (.ok true, s.handOver i m)
    | .buffered => some (.ok false, s.handOver i m)
    | .refused => some (.ok false, s)
    | .closed => some (.error .channelClosed, s)
  | .settle how => some (.ok (), s.settle i how)
  | .publishStatusChanged event => some (.ok (), { s with events := s.events ++ [(i, event)] })
  | .randomUUID => some (.ok c.uuid, s)
  | .dateNow => some (.ok c.now, { s with clockReads := s.clockReads ++ [i] })

theorem exec_sql {s s' : AppState} {i : Nat} {c : AppChoice} {o : Sql.Op schema}
    {r : Except Thrown o.Ans} (h : s.exec i c (.sql o) = some (r, s')) :
    ∃ a store, s.store.exec i c.sql o = some (a, store) ∧ r = a.mapError .sql ∧
      s' = { s with store } := by
  simp only [exec] at h
  split at h
  · next a store he =>
    obtain ⟨rfl, rfl⟩ := Prod.mk.inj (Option.some.inj h)
    exact ⟨_, _, he, rfl, rfl⟩
  · next e store he =>
    obtain ⟨rfl, rfl⟩ := Prod.mk.inj (Option.some.inj h)
    exact ⟨_, _, he, rfl, rfl⟩
  · cases h

@[simp] theorem settle_store (s : AppState) (i : Nat) (how : Settlement) :
    (s.settle i how).store = s.store := by
  unfold settle
  dsimp only
  split
  · rfl
  · split <;> rfl

@[simp] theorem settle_published (s : AppState) (i : Nat) (how : Settlement) :
    (s.settle i how).published = s.published := by
  unfold settle
  dsimp only
  split
  · rfl
  · split <;> rfl

theorem settle_settled (s : AppState) (i : Nat) (how : Settlement) :
    (s.settle i how).settled = s.settled ++ [(i, how)] := by
  unfold settle
  dsimp only
  split
  · rfl
  · split <;> rfl

theorem exec_sendToQueue {s s' : AppState} {i : Nat} {c : AppChoice} {m : Published}
    {r : Except Thrown Bool} (h : s.exec i c (.sendToQueue m) = some (r, s')) :
    (r = .ok true ∧ s' = s.handOver i m) ∨ (r = .ok false ∧ s' = s.handOver i m) ∨
      (r ≠ .ok true ∧ s' = s) := by
  simp only [exec] at h
  split at h <;> obtain ⟨rfl, rfl⟩ := Prod.mk.inj (Option.some.inj h)
  · exact .inl ⟨rfl, rfl⟩
  · exact .inr (.inl ⟨rfl, rfl⟩)
  · exact .inr (.inr ⟨by simp, rfl⟩)
  · exact .inr (.inr ⟨by simp, rfl⟩)

theorem exec_published {s s' : AppState} {i : Nat} {c : AppChoice} {o : AppOp}
    {r : Except Thrown o.Ans} (h : s.exec i c o = some (r, s')) (ho : ∀ m, o ≠ .sendToQueue m) :
    s'.published = s.published := by
  cases o with
  | sql q =>
    obtain ⟨_, _, _, _, rfl⟩ := exec_sql h
    rfl
  | sendToQueue m => exact absurd rfl (ho m)
  | settle how =>
    obtain ⟨rfl, rfl⟩ := Prod.mk.inj (Option.some.inj h)
    exact settle_published s i how
  | channelReady | publishStatusChanged | randomUUID | dateNow =>
    obtain ⟨rfl, rfl⟩ := Prod.mk.inj (Option.some.inj h)
    rfl

@[simp] theorem settle_events (s : AppState) (i : Nat) (how : Settlement) :
    (s.settle i how).events = s.events := by
  unfold settle
  dsimp only
  split
  · rfl
  · split <;> rfl

@[simp] theorem settle_clockReads (s : AppState) (i : Nat) (how : Settlement) :
    (s.settle i how).clockReads = s.clockReads := by
  unfold settle
  dsimp only
  split
  · rfl
  · split <;> rfl

theorem exec_events {s s' : AppState} {i : Nat} {c : AppChoice} {o : AppOp}
    {r : Except Thrown o.Ans} (h : s.exec i c o = some (r, s')) :
    s'.events = s.events ∨
      ∃ e, o = .publishStatusChanged e ∧ s'.events = s.events ++ [(i, e)] := by
  cases o with
  | sql q =>
    obtain ⟨_, _, _, _, rfl⟩ := exec_sql h
    exact .inl rfl
  | sendToQueue m =>
    rcases exec_sendToQueue h with ⟨_, rfl⟩ | ⟨_, rfl⟩ | ⟨_, rfl⟩ <;> exact .inl rfl
  | settle how =>
    obtain ⟨rfl, rfl⟩ := Prod.mk.inj (Option.some.inj h)
    exact .inl (settle_events s i how)
  | publishStatusChanged e =>
    obtain ⟨rfl, rfl⟩ := Prod.mk.inj (Option.some.inj h)
    exact .inr ⟨e, rfl, rfl⟩
  | channelReady | randomUUID | dateNow =>
    obtain ⟨rfl, rfl⟩ := Prod.mk.inj (Option.some.inj h)
    exact .inl rfl

theorem exec_clockReads {s s' : AppState} {i : Nat} {c : AppChoice} {o : AppOp}
    {r : Except Thrown o.Ans} (h : s.exec i c o = some (r, s')) :
    s.clockReads ⊆ s'.clockReads ∧ (o = .dateNow → i ∈ s'.clockReads) := by
  cases o with
  | sql q =>
    obtain ⟨_, _, _, _, rfl⟩ := exec_sql h
    exact ⟨List.Subset.refl _, by simp⟩
  | sendToQueue m =>
    rcases exec_sendToQueue h with ⟨_, rfl⟩ | ⟨_, rfl⟩ | ⟨_, rfl⟩ <;>
      exact ⟨List.Subset.refl _, by simp⟩
  | settle how =>
    obtain ⟨rfl, rfl⟩ := Prod.mk.inj (Option.some.inj h)
    exact ⟨by simp, by simp⟩
  | dateNow =>
    obtain ⟨rfl, rfl⟩ := Prod.mk.inj (Option.some.inj h)
    exact ⟨by simp, by simp⟩
  | channelReady | randomUUID | publishStatusChanged _ =>
    obtain ⟨rfl, rfl⟩ := Prod.mk.inj (Option.some.inj h)
    exact ⟨List.Subset.refl _, by simp⟩

theorem exec_sendToQueue_store {s s' : AppState} {i : Nat} {c : AppChoice} {m : Published}
    {r : Except Thrown Bool} (h : s.exec i c (.sendToQueue m) = some (r, s')) :
    s'.store = s.store := by
  rcases exec_sendToQueue h with ⟨_, rfl⟩ | ⟨_, rfl⟩ | ⟨_, rfl⟩ <;> rfl

theorem exec_store {s s' : AppState} {i : Nat} {c : AppChoice} {o : AppOp} {r : Except Thrown o.Ans}
    (h : s.exec i c o = some (r, s')) (ho : ∀ q, o ≠ .sql q) : s'.store = s.store := by
  cases o with
  | sql q => exact absurd rfl (ho q)
  | sendToQueue m => exact exec_sendToQueue_store h
  | settle how =>
    obtain ⟨rfl, rfl⟩ := Prod.mk.inj (Option.some.inj h)
    exact settle_store s i how
  | channelReady | publishStatusChanged | randomUUID | dateNow =>
    obtain ⟨rfl, rfl⟩ := Prod.mk.inj (Option.some.inj h)
    rfl

end AppState

/-- No transaction is open, and the records of the run are empty. -/
structure AppState.Quiet (s : AppState) : Prop where
  tx : ∀ i, s.store.tx i = none
  owner : ∀ l, s.store.owner l = none
  log : s.store.log = []
  unique : Sql.Distinct s.store.tables
  published : s.published = []
  settled : s.settled = []
  events : s.events = []
  clockReads : s.clockReads = []

/-- A service that has just started on a database. -/
def serving (T : Database) : AppState where
  store := ⟨T, fun _ => none, fun _ => none, []⟩
  channelReady := true
  queue _ := []
  published := []
  unacked _ := none
  settled := []
  events := []
  clockReads := []

theorem serving_quiet {T : Database} (hT : Sql.Distinct T) : (serving T).Quiet where
  tx _ := rfl
  owner _ := rfl
  log := rfl
  unique := hT
  published := rfl
  settled := rfl
  events := rfl
  clockReads := rfl

abbrev app : Concurrent.Machine AppOp AppOp.Ans Thrown where
  State := AppState
  Choice := AppChoice
  exec := AppState.exec

end Ecomm
