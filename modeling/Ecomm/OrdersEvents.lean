import Ecomm.Lib.Rx
import Ecomm.Entities
import Ecomm.Json

/-! `OrdersEventsService`: status events grouped by order, without repeated
versions and at most one every 300 ms. -/

namespace Ecomm

/-- `===` on numbers: `NaN` equals nothing. -/
def JsNumber.strictEquals : JsNumber → JsNumber → Bool
  | .finite x, .finite y => x = y
  | .infinite, .infinite => true
  | _, _ => false

namespace JsNumber

theorem strictEquals_left {a b : JsNumber} (h : a.strictEquals b = true) (c : JsNumber) :
    a.strictEquals c = b.strictEquals c := by
  cases a <;> cases b <;> simp_all [strictEquals]

end JsNumber

namespace OrdersEventsService

structure Event where
  orderId : String
  status : OrderStatus
  version : JsNumber
  ts : JsNumber

def sameVersion (left right : Event) : Bool := left.version.strictEquals right.version

structure OrderEventsMetrics where
  received : Nat
  dedupDropped : Nat
  emitted : Nat

/-- The pipeline of one order: `lastVersion` is the service's own, the rest is
what `distinctUntilChanged` and `throttleTime` remember. -/
structure Group where
  lastVersion : Option JsNumber
  previous : Option Event
  throttle : Rx.Throttle Event

def Group.empty : Group := ⟨none, none, .idle⟩

end OrdersEventsService

open OrdersEventsService in
/-- The service with one subscription to `events$`. `conflated` lists the events
that a later one replaced in their window. -/
structure OrdersEventsService where
  metrics : OrderEventsMetrics
  groups : AList (fun _ : String => Group)
  clock : Nat
  emissions : List (Nat × Event)
  conflated : List Event

namespace OrdersEventsService

def start : OrdersEventsService := ⟨⟨0, 0, 0⟩, ∅, 0, [], []⟩

def group (s : OrdersEventsService) (orderId : String) : Group :=
  (s.groups.lookup orderId).getD .empty

/-- The second `tap`, and the subscriber. -/
def emit (s : OrdersEventsService) (t : Nat) : Option Event → OrdersEventsService
  | some event => { s with
      metrics := { s.metrics with emitted := s.metrics.emitted + 1 }
      emissions := s.emissions ++ [(t, event)] }
  | none => s

/-- The first `tap`. -/
def countVersion (metrics : OrderEventsMetrics) (group : Group) (event : Event) :
    OrderEventsMetrics :=
  if group.lastVersion.any (fun version => version.strictEquals event.version)
  then { metrics with dedupDropped := metrics.dedupDropped + 1 } else metrics

def window : Nat := 300

/-- An event enters `input$` and runs through the pipeline of its order. -/
def next (s : OrdersEventsService) (t : Nat) (event : Event) : OrdersEventsService :=
  let group := s.group event.orderId
  let metrics := countVersion s.metrics group event
  if Rx.passes sameVersion group.previous event then
    let throttled := group.throttle.next window t event
    emit { s with
      metrics
      groups := s.groups.insert event.orderId ⟨some event.version, some event, throttled.1⟩
      conflated := s.conflated ++ group.throttle.held.toList } t throttled.2
  else { s with
    metrics
    groups := s.groups.insert event.orderId { group with lastVersion := some event.version } }

def publishStatusChanged (s : OrdersEventsService) (t : Nat) (event : Event) :
    OrdersEventsService :=
  next { s with
    metrics := { s.metrics with received := s.metrics.received + 1 }
    clock := t } t event

/-- The timer of a window fires, at its time or later. -/
def windowEnds (s : OrdersEventsService) (t : Nat) (orderId : String) :
    Option OrdersEventsService :=
  let group := s.group orderId
  if group.throttle.window.any (fun due => due ≤ t) then
    let throttled := group.throttle.windowEnds window t
    some (emit { s with
      clock := t
      groups := s.groups.insert orderId { group with throttle := throttled.1 } } t throttled.2)
  else none

inductive Tick where
  | publish (t : Nat) (event : Event)
  | windowEnds (t : Nat) (orderId : String)

def Tick.time : Tick → Nat
  | publish t _ => t
  | windowEnds t _ => t

def Tick.orderId : Tick → String
  | publish _ event => event.orderId
  | windowEnds _ orderId => orderId

def Tick.published : Tick → Option Event
  | publish _ event => some event
  | windowEnds _ _ => none

def step (s : OrdersEventsService) (tick : Tick) : Option OrdersEventsService :=
  if s.clock ≤ tick.time then
    match tick with
    | .publish t event => some (s.publishStatusChanged t event)
    | .windowEnds t orderId => s.windowEnds t orderId
  else none

/-- A timed sequence of calls, with the ends of the windows that they open. -/
def run : OrdersEventsService → List Tick → Option OrdersEventsService
  | s, [] => some s
  | s, tick :: ticks => (s.step tick).bind (fun s' => s'.run ticks)

def published (ticks : List Tick) : List Event := ticks.filterMap Tick.published

def publishedOf (orderId : String) (ticks : List Tick) : List Event :=
  (published ticks).filter (fun event => event.orderId = orderId)

def emissionsOf (s : OrdersEventsService) (orderId : String) : List (Nat × Event) :=
  s.emissions.filter (fun e => e.2.orderId = orderId)

def held (s : OrdersEventsService) : List Event :=
  s.groups.entries.filterMap (fun e => e.2.throttle.held)

end OrdersEventsService

end Ecomm
