import Ecomm.Lib.Idempotent
import Ecomm.OrdersService
import Mathlib.Data.Finset.Basic

/-! `PaymentsService`: payments and replies kept in the memory of one process. -/

namespace Ecomm

inductive PaymentStatus where
  | unspecified
  | authorized
  | captured
  | refunded
  | failed
  deriving DecidableEq

structure PaymentRecord where
  paymentId : String
  orderId : String
  status : PaymentStatus
  amount : String
  currency : String
  deriving DecidableEq

structure AuthorizePaymentInput where
  orderId : String
  amount : String
  currency : String
  idempotencyKey : Option String

structure AuthorizePaymentResult where
  paymentId : String
  status : PaymentStatus
  deriving DecidableEq

structure GetPaymentStatusResult where
  paymentId : String
  status : PaymentStatus
  deriving DecidableEq

structure PaymentOperationResult where
  ok : Bool
  message : String
  deriving DecidableEq

inductive OperationErrorCode where
  | notFound
  | failedPrecondition
  deriving DecidableEq

inductive OperationOutcome where
  | ok (response : PaymentOperationResult)
  | error (code : OperationErrorCode) (message : String)
  deriving DecidableEq

structure PaymentOperationInput where
  paymentId : String
  idempotencyKey : Option String

abbrev StringMap (V : Type) := AList (fun _ : String => V)

/-- `drawn` counts the ids that `randomUUID` has given. -/
structure PaymentsService where
  paymentsById : StringMap PaymentRecord
  authorizeIdempotencyResults : StringMap AuthorizePaymentResult
  captureIdempotencyResults : StringMap OperationOutcome
  refundIdempotencyResults : StringMap OperationOutcome
  transientFailOnceGate : Finset String
  drawn : Nat

namespace PaymentsService

def empty : PaymentsService := ⟨∅, ∅, ∅, ∅, ∅, 0⟩

/-- `key && storage.has(key)`, and then `storage.get(key)`. -/
def cached {V : Type} (storage : StringMap V) (key : Option String) : Option V :=
  (truthy key).bind storage.lookup

def persist {V : Type} (storage : StringMap V) (key : Option String) (v : V) : StringMap V :=
  match truthy key with
  | some k => storage.insert k v
  | none => storage

variable (randomUUID : Nat → String)

def authorize (s : PaymentsService) (input : AuthorizePaymentInput) :
    AuthorizePaymentResult × PaymentsService :=
  match cached s.authorizeIdempotencyResults input.idempotencyKey with
  | some result => (result, s)
  | none =>
    let paymentId := randomUUID s.drawn
    let result : AuthorizePaymentResult := { paymentId, status := .authorized }
    (result,
      { s with
        paymentsById := s.paymentsById.insert paymentId
          { paymentId, orderId := input.orderId, status := result.status, amount := input.amount
            currency := input.currency }
        authorizeIdempotencyResults :=
          persist s.authorizeIdempotencyResults input.idempotencyKey result
        drawn := s.drawn + 1 })

/-- `payment.status = status`, on the record in the map. -/
def setStatus (s : PaymentsService) (payment : PaymentRecord) (status : PaymentStatus)
    (paymentId : String) : PaymentsService :=
  { s with paymentsById := s.paymentsById.insert paymentId { payment with status } }

def persistCapture (s : PaymentsService) (key : Option String) (outcome : OperationOutcome) :
    OperationOutcome × PaymentsService :=
  (outcome, { s with
    captureIdempotencyResults := persist s.captureIdempotencyResults key outcome })

def persistRefund (s : PaymentsService) (key : Option String) (outcome : OperationOutcome) :
    OperationOutcome × PaymentsService :=
  (outcome, { s with
    refundIdempotencyResults := persist s.refundIdempotencyResults key outcome })

def capture (s : PaymentsService) (input : PaymentOperationInput) :
    OperationOutcome × PaymentsService :=
  match cached s.captureIdempotencyResults input.idempotencyKey with
  | some outcome => (outcome, s)
  | none =>
    match s.paymentsById.lookup input.paymentId with
    | none => s.persistCapture input.idempotencyKey (.error .notFound "payment not found")
    | some payment =>
      if payment.status = .refunded then
        s.persistCapture input.idempotencyKey
          (.error .failedPrecondition "cannot capture refunded payment")
      else if payment.status = .captured then
        s.persistCapture input.idempotencyKey (.ok ⟨true, "payment already captured"⟩)
      else if payment.status ≠ .authorized then
        s.persistCapture input.idempotencyKey
          (.error .failedPrecondition "payment must be authorized before capture")
      else
        (s.setStatus payment .captured input.paymentId).persistCapture input.idempotencyKey
          (.ok ⟨true, "payment captured"⟩)

def refund (s : PaymentsService) (input : PaymentOperationInput) :
    OperationOutcome × PaymentsService :=
  match cached s.refundIdempotencyResults input.idempotencyKey with
  | some outcome => (outcome, s)
  | none =>
    match s.paymentsById.lookup input.paymentId with
    | none => s.persistRefund input.idempotencyKey (.error .notFound "payment not found")
    | some payment =>
      if payment.status = .refunded then
        s.persistRefund input.idempotencyKey (.ok ⟨true, "payment already refunded"⟩)
      else if payment.status ≠ .authorized ∧ payment.status ≠ .captured then
        s.persistRefund input.idempotencyKey
          (.error .failedPrecondition "payment must be authorized or captured before refund")
      else
        (s.setStatus payment .refunded input.paymentId).persistRefund input.idempotencyKey
          (.ok ⟨true, "payment refunded"⟩)

def getStatus (s : PaymentsService) (paymentId : String) : Option GetPaymentStatusResult :=
  (s.paymentsById.lookup paymentId).map (fun payment => ⟨payment.paymentId, payment.status⟩)

def shouldFailTransient (s : PaymentsService) (orderId : String)
    (simulateUnavailableOnce : Option Bool) : Bool × PaymentsService :=
  if simulateUnavailableOnce ≠ some true then (false, s)
  else if orderId ∈ s.transientFailOnceGate then (false, s)
  else (true, { s with transientFailOnceGate := Insert.insert orderId s.transientFailOnceGate })

end PaymentsService

inductive PaymentCall where
  | authorize (input : AuthorizePaymentInput)
  | capture (input : PaymentOperationInput)
  | refund (input : PaymentOperationInput)
  | getStatus (paymentId : String)

inductive PaymentAnswer where
  | authorized (result : AuthorizePaymentResult)
  | outcome (outcome : OperationOutcome)
  | status (result : Option GetPaymentStatusResult)
  deriving DecidableEq

namespace PaymentsService

variable (randomUUID : Nat → String)

def call (s : PaymentsService) : PaymentCall → PaymentAnswer × PaymentsService
  | .authorize input => ((s.authorize randomUUID input).map .authorized id)
  | .capture input => ((s.capture input).map .outcome id)
  | .refund input => ((s.refund input).map .outcome id)
  | .getStatus paymentId => (.status (s.getStatus paymentId), s)

def run : PaymentsService → List PaymentCall → List (PaymentCall × PaymentAnswer) × PaymentsService
  | s, [] => ([], s)
  | s, c :: cs =>
    ((c, (s.call randomUUID c).1) :: (run (s.call randomUUID c).2 cs).1,
      (run (s.call randomUUID c).2 cs).2)

end PaymentsService

/-! The service as requests with idempotency keys over a ledger of payments. -/

inductive PaymentKind where
  | authorize
  | capture
  | refund
  | getStatus
  deriving DecidableEq

structure Ledger where
  payments : StringMap PaymentRecord
  drawn : Nat

namespace Ledger

def move (l : Ledger) (payment : PaymentRecord) (status : PaymentStatus) (paymentId : String) :
    Ledger :=
  { l with payments := l.payments.insert paymentId { payment with status } }

/-- What a call does that is not a replay. -/
def perform (randomUUID : Nat → String) : PaymentCall → Ledger → PaymentAnswer × Ledger
  | .authorize input, l =>
    (.authorized ⟨randomUUID l.drawn, .authorized⟩,
      { payments := l.payments.insert (randomUUID l.drawn)
          ⟨randomUUID l.drawn, input.orderId, .authorized, input.amount, input.currency⟩
        drawn := l.drawn + 1 })
  | .capture input, l =>
    match l.payments.lookup input.paymentId with
    | none => (.outcome (.error .notFound "payment not found"), l)
    | some payment =>
      match payment.status with
      | .refunded => (.outcome (.error .failedPrecondition "cannot capture refunded payment"), l)
      | .captured => (.outcome (.ok ⟨true, "payment already captured"⟩), l)
      | .authorized =>
        (.outcome (.ok ⟨true, "payment captured"⟩), l.move payment .captured input.paymentId)
      | .unspecified | .failed =>
        (.outcome (.error .failedPrecondition "payment must be authorized before capture"), l)
  | .refund input, l =>
    match l.payments.lookup input.paymentId with
    | none => (.outcome (.error .notFound "payment not found"), l)
    | some payment =>
      match payment.status with
      | .refunded => (.outcome (.ok ⟨true, "payment already refunded"⟩), l)
      | .authorized | .captured =>
        (.outcome (.ok ⟨true, "payment refunded"⟩), l.move payment .refunded input.paymentId)
      | .unspecified | .failed =>
        (.outcome (.error .failedPrecondition
          "payment must be authorized or captured before refund"), l)
  | .getStatus paymentId, l =>
    (.status ((l.payments.lookup paymentId).map (fun payment => ⟨payment.paymentId, payment.status⟩)),
      l)

end Ledger

def PaymentCall.request (c : PaymentCall) : Idempotent.Request PaymentKind String PaymentCall :=
  match c with
  | .authorize input => ⟨.authorize, truthy input.idempotencyKey, c⟩
  | .capture input => ⟨.capture, truthy input.idempotencyKey, c⟩
  | .refund input => ⟨.refund, truthy input.idempotencyKey, c⟩
  | .getStatus _ => ⟨.getStatus, none, c⟩

namespace PaymentsService

def ledger (s : PaymentsService) : Ledger := ⟨s.paymentsById, s.drawn⟩

def server (s : PaymentsService) : Idempotent.Server PaymentKind String PaymentAnswer Ledger where
  core := s.ledger
  replies
    | .authorize, k => (s.authorizeIdempotencyResults.lookup k).map .authorized
    | .capture, k => (s.captureIdempotencyResults.lookup k).map .outcome
    | .refund, k => (s.refundIdempotencyResults.lookup k).map .outcome
    | .getStatus, _ => none

variable {randomUUID : Nat → String}

theorem request_op (c : PaymentCall) : c.request.op = c := by
  cases c <;> rfl

theorem persist_lookup {V : Type} (storage : StringMap V) (key : Option String) (v : V)
    (k : String) :
    (persist storage key v).lookup k = if truthy key = some k then some v else storage.lookup k := by
  unfold persist
  split
  · next k' hk =>
    by_cases he : k = k'
    · subst he
      rw [AList.lookup_insert, hk, if_pos rfl]
    · rw [AList.lookup_insert_ne he, hk, if_neg (fun h => he (Option.some.inj h).symm)]
  · next hk => simp [hk]

theorem record_replies {core : Ledger} {replies : PaymentKind → String → Option PaymentAnswer}
    (kind : PaymentKind) (key : Option String) (a : PaymentAnswer) (kind' : PaymentKind)
    (k : String) :
    ((⟨core, replies⟩ : Idempotent.Server PaymentKind String PaymentAnswer Ledger).record kind key
      a).replies kind' k = if kind' = kind ∧ key = some k then some a else replies kind' k := by
  cases key with
  | none => simp [Idempotent.Server.record]
  | some k' =>
    by_cases hat : kind' = kind ∧ k = k'
    · obtain ⟨rfl, rfl⟩ := hat
      simp [Idempotent.Server.record, Idempotent.Server.remember_self]
    · rw [Idempotent.Server.record, Option.elim_some, Idempotent.Server.remember_other _ _ hat,
        if_neg (fun h => hat ⟨h.1, (Option.some.inj h.2).symm⟩)]

@[simp] theorem record_core {s : Idempotent.Server PaymentKind String PaymentAnswer Ledger}
    (kind : PaymentKind) (key : Option String) (a : PaymentAnswer) :
    (s.record kind key a).core = s.core := by
  cases key <;> rfl

theorem server_ext {s t : Idempotent.Server PaymentKind String PaymentAnswer Ledger}
    (hcore : s.core = t.core) (hreplies : ∀ kind k, s.replies kind k = t.replies kind k) : s = t := by
  cases s
  cases t
  simp only [Idempotent.Server.mk.injEq]
  exact ⟨hcore, funext (fun kind => funext (hreplies kind))⟩

theorem server_persistCapture (s : PaymentsService) (key : Option String) (o : OperationOutcome) :
    (s.persistCapture key o).2.server = s.server.record .capture (truthy key) (.outcome o) := by
  refine server_ext (by simp; rfl) ?_
  intro kind k
  rw [server, record_replies]
  cases kind with
  | capture =>
    simp only [server, persistCapture, persist_lookup]
    split <;> simp_all
  | authorize | refund | getStatus => rfl

theorem server_persistRefund (s : PaymentsService) (key : Option String) (o : OperationOutcome) :
    (s.persistRefund key o).2.server = s.server.record .refund (truthy key) (.outcome o) := by
  refine server_ext (by simp; rfl) ?_
  intro kind k
  rw [server, record_replies]
  cases kind with
  | refund =>
    simp only [server, persistRefund, persist_lookup]
    split <;> simp_all
  | authorize | capture | getStatus => rfl

theorem capture_server (s : PaymentsService) (input : PaymentOperationInput) :
    (PaymentAnswer.outcome (s.capture input).1, (s.capture input).2.server) =
      s.server.serve (Ledger.perform randomUUID) (PaymentCall.capture input).request := by
  have hreply : (truthy input.idempotencyKey).bind (s.server.replies .capture) =
      (cached s.captureIdempotencyResults input.idempotencyKey).map .outcome := by
    simp only [cached]
    cases truthy input.idempotencyKey <;> rfl
  cases hc : cached s.captureIdempotencyResults input.idempotencyKey with
  | some o =>
    rw [Idempotent.Server.serve_cached (hreply.trans (congrArg _ hc))]
    simp [capture, hc]
  | none =>
    rw [Idempotent.Server.serve_performed (hreply.trans (congrArg _ hc))]
    simp only [capture, hc]
    cases hp : s.paymentsById.lookup input.paymentId with
    | none =>
      simp only [PaymentCall.request, Ledger.perform, server, ledger, hp]
      exact Prod.ext rfl (server_persistCapture s _ _)
    | some payment =>
      cases hs : payment.status <;>
        simp only [PaymentCall.request, Ledger.perform, server, ledger, hp, hs, reduceCtorEq,
          if_true, if_false, ne_eq, not_true_eq_false, not_false_eq_true] <;>
        exact Prod.ext rfl (server_persistCapture _ _ _)

theorem refund_server (s : PaymentsService) (input : PaymentOperationInput) :
    (PaymentAnswer.outcome (s.refund input).1, (s.refund input).2.server) =
      s.server.serve (Ledger.perform randomUUID) (PaymentCall.refund input).request := by
  have hreply : (truthy input.idempotencyKey).bind (s.server.replies .refund) =
      (cached s.refundIdempotencyResults input.idempotencyKey).map .outcome := by
    simp only [cached]
    cases truthy input.idempotencyKey <;> rfl
  cases hc : cached s.refundIdempotencyResults input.idempotencyKey with
  | some o =>
    rw [Idempotent.Server.serve_cached (hreply.trans (congrArg _ hc))]
    simp [refund, hc]
  | none =>
    rw [Idempotent.Server.serve_performed (hreply.trans (congrArg _ hc))]
    simp only [refund, hc]
    cases hp : s.paymentsById.lookup input.paymentId with
    | none =>
      simp only [PaymentCall.request, Ledger.perform, server, ledger, hp]
      exact Prod.ext rfl (server_persistRefund s _ _)
    | some payment =>
      cases hs : payment.status <;>
        simp only [PaymentCall.request, Ledger.perform, server, ledger, hp, hs, reduceCtorEq,
          if_true, if_false, ne_eq, not_true_eq_false, not_false_eq_true, and_true, and_false,
          and_self] <;>
        exact Prod.ext rfl (server_persistRefund _ _ _)

theorem authorize_server (s : PaymentsService) (input : AuthorizePaymentInput) :
    (PaymentAnswer.authorized (s.authorize randomUUID input).1,
        (s.authorize randomUUID input).2.server) =
      s.server.serve (Ledger.perform randomUUID) (PaymentCall.authorize input).request := by
  have hreply : (truthy input.idempotencyKey).bind (s.server.replies .authorize) =
      (cached s.authorizeIdempotencyResults input.idempotencyKey).map .authorized := by
    simp only [cached]
    cases truthy input.idempotencyKey <;> rfl
  cases hc : cached s.authorizeIdempotencyResults input.idempotencyKey with
  | some o =>
    rw [Idempotent.Server.serve_cached (hreply.trans (congrArg _ hc))]
    simp [authorize, hc]
  | none =>
    rw [Idempotent.Server.serve_performed (hreply.trans (congrArg _ hc))]
    simp only [authorize, hc]
    refine Prod.ext rfl (server_ext (by simp; rfl) ?_)
    intro kind k
    dsimp only
    rw [record_replies]
    cases kind with
    | authorize =>
      simp only [server, persist_lookup, PaymentCall.request]
      split <;> simp_all [Ledger.perform, ledger]
    | capture | refund | getStatus => rfl

/-- The service answers as a server that performs its calls on the ledger. -/
theorem call_server (s : PaymentsService) (c : PaymentCall) :
    ((s.call randomUUID c).1, (s.call randomUUID c).2.server) =
      s.server.serve (Ledger.perform randomUUID) c.request := by
  cases c with
  | authorize input => exact authorize_server s input
  | capture input => exact capture_server s input
  | refund input => exact refund_server s input
  | getStatus paymentId => rfl

end PaymentsService

end Ecomm
