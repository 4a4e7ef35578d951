import Ecomm.PaymentAnswers
import Ecomm.PaymentsGrpc

/-! The gRPC server of the payments: a run of it is a run of the service on the
requests that pass, and a client reads statuses that never go back. -/

namespace Ecomm

inductive PaymentsRequest where
  | authorize (payload : AuthorizePaymentRequest)
  | getPaymentStatus (paymentId : String)
  | capture (payload : PaymentOperationInput)
  | refund (payload : PaymentOperationInput)

inductive PaymentsReply where
  | authorized (result : AuthorizePaymentResult)
  | status (result : GetPaymentStatusResult)
  | operation (result : PaymentOperationResult)
  deriving DecidableEq

abbrev PaymentsResponse := Except RpcException PaymentsReply

namespace PaymentsGrpcController

def getPaymentStatus (s : PaymentsService) (paymentId : String) :
    Except RpcException GetPaymentStatusResult :=
  match s.getStatus paymentId with
  | none => .error ⟨.notFound, "payment not found"⟩
  | some payment => .ok payment

/-- The response to an outcome: the exception that is thrown, or `outcome.response`. -/
def outcomeResponse : OperationOutcome → Except RpcException PaymentOperationResult
  | .error code message =>
    .error ⟨if code = .notFound then .notFound else .failedPrecondition, message⟩
  | .ok response => .ok response

def capture (s : PaymentsService) (payload : PaymentOperationInput) :
    Except RpcException PaymentOperationResult × PaymentsService :=
  if payload.paymentId = "" then (.error ⟨.invalidArgument, "payment_id is required"⟩, s)
  else (s.capture payload).map outcomeResponse id

def refund (s : PaymentsService) (payload : PaymentOperationInput) :
    Except RpcException PaymentOperationResult × PaymentsService :=
  if payload.paymentId = "" then (.error ⟨.invalidArgument, "payment_id is required"⟩, s)
  else (s.refund payload).map outcomeResponse id

section

variable (number : String → JsNumber) (randomUUID : Nat → String)

def handle (s : PaymentsService) : PaymentsRequest → PaymentsResponse × PaymentsService
  | .authorize payload =>
    (authorize number randomUUID s payload).map (fun r => r.map .authorized) id
  | .getPaymentStatus paymentId => ((getPaymentStatus s paymentId).map .status, s)
  | .capture payload => (capture s payload).map (fun r => r.map .operation) id
  | .refund payload => (refund s payload).map (fun r => r.map .operation) id

def serve : PaymentsService → List PaymentsRequest →
    List (PaymentsRequest × PaymentsResponse) × PaymentsService
  | s, [] => ([], s)
  | s, request :: requests =>
    let first := handle number randomUUID s request
    let rest := serve first.2 requests
    ((request, first.1) :: rest.1, rest.2)

end

end PaymentsGrpcController

/-! ## The requests that pass -/

def PaymentsRequest.call : PaymentsRequest → PaymentCall
  | authorize payload => .authorize ⟨payload.orderId, payload.amount, payload.currency,
      payload.idempotencyKey⟩
  | getPaymentStatus paymentId => .getStatus paymentId
  | capture payload => .capture payload
  | refund payload => .refund payload

def PaymentsRequest.isValid (number : String → JsNumber) : PaymentsRequest → Bool
  | authorize payload =>
    payload.orderId ≠ "" && isPositive (number payload.amount) && isCurrencyCode payload.currency
  | getPaymentStatus _ => true
  | capture payload => payload.paymentId ≠ ""
  | refund payload => payload.paymentId ≠ ""

def PaymentsRequest.orderId : PaymentsRequest → Option String
  | authorize payload => some payload.orderId
  | _ => none

/-- The request is the first one to simulate an outage for its order. -/
def PaymentsRequest.outage (s : PaymentsService) : PaymentsRequest → Option String
  | authorize payload =>
    if payload.simulateUnavailableOnce = some true ∧ payload.orderId ∉ s.transientFailOnceGate then
      some payload.orderId
    else none
  | _ => none

def PaymentsRequest.passes (number : String → JsNumber) (s : PaymentsService)
    (request : PaymentsRequest) : Bool :=
  request.isValid number && (request.outage s).isNone

/-- What a client receives for an answer of the service. -/
def PaymentAnswer.response : PaymentAnswer → PaymentsResponse
  | authorized result => .ok (.authorized result)
  | outcome o => (PaymentsGrpcController.outcomeResponse o).map .operation
  | status (some result) => .ok (.status result)
  | status none => .error ⟨.notFound, "payment not found"⟩

def isUnavailableResponse : PaymentsResponse → Bool
  | .error e => e.code = .unavailable
  | .ok _ => false

/-- The server has answered by itself. -/
def isRefusal : PaymentsResponse → Bool
  | .error e => e.code = .invalidArgument || e.code = .unavailable
  | .ok _ => false

theorem PaymentAnswer.response_served (a : PaymentAnswer) : isRefusal a.response = false := by
  cases a with
  | authorized result => rfl
  | outcome o =>
    cases o with
    | ok response => rfl
    | error code message => cases code <;> rfl
  | status result => cases result <;> rfl

namespace PaymentsService

def withGate (s : PaymentsService) (gate : Finset String) : PaymentsService :=
  { s with transientFailOnceGate := gate }

@[simp] theorem withGate_self (s : PaymentsService) : s.withGate s.transientFailOnceGate = s := rfl

@[simp] theorem withGate_withGate (s : PaymentsService) (g g' : Finset String) :
    (s.withGate g).withGate g' = s.withGate g' := rfl

variable {randomUUID : Nat → String}

/-- The service itself never looks at the gate. -/
theorem call_withGate (randomUUID : Nat → String) (s : PaymentsService) (gate : Finset String)
    (c : PaymentCall) :
    (s.withGate gate).call randomUUID c =
      ((s.call randomUUID c).1, (s.call randomUUID c).2.withGate gate) := by
  cases c with
  | authorize input =>
    have hcached : (s.withGate gate).authorizeIdempotencyResults = s.authorizeIdempotencyResults :=
      rfl
    unfold call
    dsimp only
    unfold authorize
    rw [hcached]
    cases cached s.authorizeIdempotencyResults input.idempotencyKey <;> rfl
  | capture input =>
    have hcached : (s.withGate gate).captureIdempotencyResults = s.captureIdempotencyResults := rfl
    have hpayments : (s.withGate gate).paymentsById = s.paymentsById := rfl
    unfold call
    dsimp only
    unfold capture
    rw [hcached, hpayments]
    cases cached s.captureIdempotencyResults input.idempotencyKey with
    | some outcome => rfl
    | none =>
      cases s.paymentsById.lookup input.paymentId with
      | none => rfl
      | some payment => cases hs : payment.status <;> simp [hs] <;> rfl
  | refund input =>
    have hcached : (s.withGate gate).refundIdempotencyResults = s.refundIdempotencyResults := rfl
    have hpayments : (s.withGate gate).paymentsById = s.paymentsById := rfl
    unfold call
    dsimp only
    unfold refund
    rw [hcached, hpayments]
    cases cached s.refundIdempotencyResults input.idempotencyKey with
    | some outcome => rfl
    | none =>
      cases s.paymentsById.lookup input.paymentId with
      | none => rfl
      | some payment => cases hs : payment.status <;> simp [hs] <;> rfl
  | getStatus paymentId => rfl

theorem run_withGate (randomUUID : Nat → String) (s : PaymentsService) (gate : Finset String)
    (calls : List PaymentCall) :
    run randomUUID (s.withGate gate) calls =
      ((run randomUUID s calls).1, (run randomUUID s calls).2.withGate gate) := by
  induction calls generalizing s with
  | nil => rfl
  | cons c cs ih =>
    rw [run, call_withGate]
    dsimp only
    rw [ih]
    rfl

end PaymentsService

namespace PaymentsGrpcController

variable {number : String → JsNumber} {randomUUID : Nat → String} {s : PaymentsService}

theorem shouldFailTransient_outage (s : PaymentsService) (payload : AuthorizePaymentRequest) :
    s.shouldFailTransient payload.orderId payload.simulateUnavailableOnce =
      ((PaymentsRequest.authorize payload).outage s).elim (false, s)
        (fun orderId => (true, s.withGate (Insert.insert orderId s.transientFailOnceGate))) := by
  unfold PaymentsService.shouldFailTransient PaymentsRequest.outage
  by_cases hasked : payload.simulateUnavailableOnce = some true
  · by_cases hgate : payload.orderId ∈ s.transientFailOnceGate <;>
      simp [hasked, hgate, PaymentsService.withGate]
  · simp [hasked]

theorem operation_response (r : OperationOutcome × PaymentsService) :
    (r.map outcomeResponse id).map (fun r => r.map PaymentsReply.operation) id =
      ((r.map PaymentAnswer.outcome id).1.response, (r.map PaymentAnswer.outcome id).2) := rfl

theorem handle_passes (randomUUID : Nat → String) {request : PaymentsRequest}
    (h : request.passes number s = true) :
    handle number randomUUID s request =
      ((s.call randomUUID request.call).1.response, (s.call randomUUID request.call).2) := by
  cases request with
  | authorize payload =>
    simp only [PaymentsRequest.passes, PaymentsRequest.isValid, Bool.and_eq_true,
      decide_eq_true_eq, Option.isNone_iff_eq_none] at h
    obtain ⟨⟨⟨horder, hamount⟩, hcurrency⟩, houtage⟩ := h
    have hgate := shouldFailTransient_outage s payload
    rw [houtage, Option.elim_none] at hgate
    simp only [handle, authorize, horder, hamount, hcurrency, hgate, if_false, not_true_eq_false]
    rfl
  | getPaymentStatus paymentId =>
    simp only [handle, getPaymentStatus, PaymentsRequest.call, PaymentsService.call]
    cases s.getStatus paymentId <;> rfl
  | capture payload =>
    have hid : payload.paymentId ≠ "" := by
      simpa [PaymentsRequest.passes, PaymentsRequest.isValid, PaymentsRequest.outage] using h
    simp only [handle, capture, hid, if_false]
    exact operation_response _
  | refund payload =>
    have hid : payload.paymentId ≠ "" := by
      simpa [PaymentsRequest.passes, PaymentsRequest.isValid, PaymentsRequest.outage] using h
    simp only [handle, refund, hid, if_false]
    exact operation_response _

/-- A request that does not pass is invalid, or an outage is simulated for its order. -/
theorem handle_refuses (randomUUID : Nat → String) {request : PaymentsRequest}
    (h : request.passes number s = false) :
    ∃ e, (handle number randomUUID s request).1 = .error e ∧
      ((e.code = .invalidArgument ∧ request.isValid number = false ∧
          (handle number randomUUID s request).2 = s) ∨
        ∃ orderId, e.code = .unavailable ∧ request.isValid number = true ∧
          request.outage s = some orderId ∧ (handle number randomUUID s request).2 =
            s.withGate (Insert.insert orderId s.transientFailOnceGate)) := by
  cases request with
  | authorize payload =>
    simp only [handle, authorize]
    by_cases horder : payload.orderId = ""
    · exact ⟨_, by simp [horder]; rfl, .inl ⟨rfl, by simp [PaymentsRequest.isValid, horder],
        by simp [horder]⟩⟩
    by_cases hamount : isPositive (number payload.amount) = true
    case neg =>
      exact ⟨_, by simp [horder, hamount]; rfl,
        .inl ⟨rfl, by simp [PaymentsRequest.isValid, hamount], by simp [horder, hamount]⟩⟩
    by_cases hcurrency : isCurrencyCode payload.currency = true
    case neg =>
      exact ⟨_, by simp [horder, hamount, hcurrency]; rfl,
        .inl ⟨rfl, by simp [PaymentsRequest.isValid, hcurrency],
          by simp [horder, hamount, hcurrency]⟩⟩
    have hvalid : (PaymentsRequest.authorize payload).isValid number = true := by
      simp [PaymentsRequest.isValid, horder, hamount, hcurrency]
    cases houtage : (PaymentsRequest.authorize payload).outage s with
    | none => simp [PaymentsRequest.passes, hvalid, houtage] at h
    | some orderId =>
      have hgate := shouldFailTransient_outage s payload
      rw [houtage, Option.elim_some] at hgate
      exact ⟨_, by simp [horder, hamount, hcurrency, hgate]; rfl,
        .inr ⟨orderId, rfl, hvalid, rfl, by simp [horder, hamount, hcurrency, hgate]⟩⟩
  | getPaymentStatus paymentId => cases h
  | capture payload =>
    have hid : payload.paymentId = "" := by
      simpa [PaymentsRequest.passes, PaymentsRequest.isValid, PaymentsRequest.outage] using h
    exact ⟨_, by simp [handle, capture, hid]; rfl,
      .inl ⟨rfl, by simp [PaymentsRequest.isValid, hid], by simp [handle, capture, hid]⟩⟩
  | refund payload =>
    have hid : payload.paymentId = "" := by
      simpa [PaymentsRequest.passes, PaymentsRequest.isValid, PaymentsRequest.outage] using h
    exact ⟨_, by simp [handle, refund, hid]; rfl,
      .inl ⟨rfl, by simp [PaymentsRequest.isValid, hid], by simp [handle, refund, hid]⟩⟩

/-! ## Runs of the server -/

variable (number : String → JsNumber) (randomUUID : Nat → String)

/-- The calls that a run of the server makes of the service. -/
def calls : PaymentsService → List PaymentsRequest → List PaymentCall
  | _, [] => []
  | s, request :: requests =>
    (if request.passes number s then [request.call] else []) ++
      calls (handle number randomUUID s request).2 requests

def outages (orderId : String) (entries : List (PaymentsRequest × PaymentsResponse)) : Nat :=
  entries.countP (fun e => e.1.orderId = some orderId && isUnavailableResponse e.2)

structure Refines (s : PaymentsService) (requests : List PaymentsRequest) : Prop where
  state : ∃ gate, (serve number randomUUID s requests).2 =
    (PaymentsService.run randomUUID s (calls number randomUUID s requests)).2.withGate gate
  responses : ((serve number randomUUID s requests).1.map Prod.snd).filter (fun r => ! isRefusal r) =
    (PaymentsService.run randomUUID s (calls number randomUUID s requests)).1.map
      (fun e => e.2.response)

theorem serve_refines (s : PaymentsService) (requests : List PaymentsRequest) :
    Refines number randomUUID s requests := by
  induction requests generalizing s with
  | nil => exact ⟨⟨s.transientFailOnceGate, rfl⟩, rfl⟩
  | cons request requests ih =>
    obtain ⟨⟨gate, hstate⟩, hresponses⟩ := ih (handle number randomUUID s request).2
    by_cases hpasses : request.passes number s = true
    · have hhandle := handle_passes randomUUID hpasses
      have hcalls : calls number randomUUID s (request :: requests) = request.call ::
          calls number randomUUID (handle number randomUUID s request).2 requests := by
        simp [calls, hpasses]
      rw [hhandle] at hstate hresponses hcalls
      refine ⟨⟨gate, ?_⟩, ?_⟩
      · rw [hcalls, serve, hhandle]
        exact hstate
      · rw [hcalls, serve, hhandle, PaymentsService.run]
        simp only [List.map_cons, List.filter_cons, PaymentAnswer.response_served, Bool.not_false,
          if_true]
        rw [hresponses]
    · have hpasses : request.passes number s = false := by simpa using hpasses
      have hcalls : calls number randomUUID s (request :: requests) =
          calls number randomUUID (handle number randomUUID s request).2 requests := by
        simp [calls, hpasses]
      obtain ⟨e, he, hcode⟩ := handle_refuses randomUUID hpasses
      have hrefusal : isRefusal (handle number randomUUID s request).1 = true := by
        rw [he]
        rcases hcode with ⟨hcode, _⟩ | ⟨_, hcode, _⟩ <;> simp [isRefusal, hcode]
      have hgate : ∃ g, (handle number randomUUID s request).2 = s.withGate g := by
        rcases hcode with ⟨_, _, hs⟩ | ⟨_, _, _, _, hs⟩
        · exact ⟨s.transientFailOnceGate, hs⟩
        · exact ⟨_, hs⟩
      obtain ⟨g, hg⟩ := hgate
      refine ⟨⟨gate, ?_⟩, ?_⟩
      · rw [hcalls, serve]
        dsimp only
        rw [hstate]
        generalize calls number randomUUID (handle number randomUUID s request).2 requests = cs
        rw [hg, PaymentsService.run_withGate]
        rfl
      · rw [hcalls, serve]
        simp only [List.map_cons, List.filter_cons, hrefusal, Bool.not_true, Bool.false_eq_true,
          if_false]
        rw [hresponses]
        generalize calls number randomUUID (handle number randomUUID s request).2 requests = cs
        rw [hg, PaymentsService.run_withGate]

variable {number randomUUID}

theorem call_gate (s : PaymentsService) (c : PaymentCall) :
    (s.call randomUUID c).2.transientFailOnceGate = s.transientFailOnceGate := by
  have hcall := PaymentsService.call_withGate randomUUID s s.transientFailOnceGate c
  rw [PaymentsService.withGate_self] at hcall
  rw [hcall]
  rfl

theorem outage_eq_some {request : PaymentsRequest} {orderId : String}
    (h : request.outage s = some orderId) : ∃ payload, request = .authorize payload ∧
      payload.orderId = orderId ∧ payload.simulateUnavailableOnce = some true ∧
        orderId ∉ s.transientFailOnceGate := by
  cases request with
  | authorize payload =>
    simp only [PaymentsRequest.outage] at h
    split at h
    · next hasked =>
      obtain rfl := Option.some.inj h
      exact ⟨payload, rfl, rfl, hasked⟩
    · cases h
  | getPaymentStatus | capture | refund => cases h

/-- What one request does to the gate. -/
theorem handle_gate (number : String → JsNumber) (randomUUID : Nat → String) (s : PaymentsService)
    (request : PaymentsRequest) :
    (isUnavailableResponse (handle number randomUUID s request).1 = false ∧
        (handle number randomUUID s request).2.transientFailOnceGate = s.transientFailOnceGate) ∨
      ∃ payload, request = .authorize payload ∧ payload.simulateUnavailableOnce = some true ∧
        payload.orderId ∉ s.transientFailOnceGate ∧
        (handle number randomUUID s request).2.transientFailOnceGate =
          Insert.insert payload.orderId s.transientFailOnceGate := by
  by_cases hpasses : request.passes number s = true
  · left
    rw [handle_passes randomUUID hpasses]
    refine ⟨?_, call_gate s _⟩
    have hserved := (s.call randomUUID request.call).1.response_served
    unfold isRefusal at hserved
    unfold isUnavailableResponse
    split at hserved <;> simp_all
  · obtain ⟨e, he, hcode⟩ := handle_refuses randomUUID
      (by simpa using hpasses : request.passes number s = false)
    rcases hcode with ⟨hcode, _, hs⟩ | ⟨orderId, _, _, houtage, hs⟩
    · left
      rw [he, hs]
      exact ⟨by simp [isUnavailableResponse, hcode], rfl⟩
    · right
      obtain ⟨payload, rfl, rfl, hasked, hnew⟩ := outage_eq_some houtage
      rw [hs]
      exact ⟨payload, rfl, hasked, hnew, rfl⟩

theorem outages_le (number : String → JsNumber) (randomUUID : Nat → String) (s : PaymentsService)
    (requests : List PaymentsRequest) (orderId : String) :
    outages orderId (serve number randomUUID s requests).1 ≤
      if orderId ∈ s.transientFailOnceGate then 0 else 1 := by
  induction requests generalizing s with
  | nil => exact Nat.zero_le _
  | cons request requests ih =>
    have hrest := ih (handle number randomUUID s request).2
    simp only [serve, outages, List.countP_cons] at hrest ⊢
    rcases handle_gate number randomUUID s request with
      ⟨hresponse, hgate⟩ | ⟨payload, rfl, _, hnew, hgate⟩
    · rw [hgate] at hrest
      simpa [hresponse] using hrest
    · rw [hgate] at hrest
      by_cases ho : payload.orderId = orderId
      · subst ho
        rw [if_pos (Finset.mem_insert_self _ _)] at hrest
        rw [if_neg hnew]
        split <;> omega
      · have hmem : orderId ∈ Insert.insert payload.orderId s.transientFailOnceGate ↔
            orderId ∈ s.transientFailOnceGate := by
          simp [Ne.symm ho]
        simp only [hmem] at hrest
        simpa [PaymentsRequest.orderId, ho] using hrest

/-- A run of the server is a run of the service on the requests that pass. An
order sees the simulated outage at most once. -/
theorem serve_refines_service (number : String → JsNumber) (randomUUID : Nat → String)
    (s : PaymentsService) (requests : List PaymentsRequest) :
    Refines number randomUUID s requests ∧
      ∀ orderId, outages orderId (serve number randomUUID s requests).1 ≤ 1 := by
  refine ⟨serve_refines number randomUUID s requests, ?_⟩
  intro orderId
  refine (outages_le number randomUUID s requests orderId).trans ?_
  split <;> omega

/-! ## What a client reads -/

def served (number : String → JsNumber) (randomUUID : Nat → String)
    (requests : List PaymentsRequest) : PaymentsService :=
  (serve number randomUUID .empty requests).2

/-- No earlier call of the operation had the key. -/
def FirstUse (before : List PaymentsRequest) (request : PaymentsRequest) : Prop :=
  ∀ request' ∈ before, request'.call.request.kind = request.call.request.kind →
    request'.call.request.key = request.call.request.key → request.call.request.key = none

/-- The reply says that the payment has come to the status. -/
def Tells (before : List PaymentsRequest) :
    PaymentsRequest → PaymentsReply → String → PaymentStatus → Prop
  | .authorize _, .authorized result, paymentId, status =>
    paymentId = result.paymentId ∧ status = .authorized
  | .getPaymentStatus _, .status result, paymentId, status =>
    paymentId = result.paymentId ∧ status = result.status
  | .capture payload, .operation _, paymentId, status =>
    paymentId = payload.paymentId ∧ status = .captured ∧ FirstUse before (.capture payload)
  | .refund payload, .operation _, paymentId, status =>
    paymentId = payload.paymentId ∧ status = .refunded ∧ FirstUse before (.refund payload)
  | _, _, _, _ => False

theorem calls_append (s : PaymentsService) (requests requests' : List PaymentsRequest) :
    calls number randomUUID s (requests ++ requests') = calls number randomUUID s requests ++
      calls number randomUUID (serve number randomUUID s requests).2 requests' := by
  induction requests generalizing s with
  | nil => rfl
  | cons request requests ih =>
    simp only [List.cons_append, calls, ih, List.append_assoc]
    rfl

theorem calls_mem {s : PaymentsService} {requests : List PaymentsRequest} {c : PaymentCall}
    (h : c ∈ calls number randomUUID s requests) : ∃ request ∈ requests, request.call = c := by
  induction requests generalizing s with
  | nil => cases h
  | cons request requests ih =>
    rcases List.mem_append.mp h with hc | hc
    · split at hc
      · exact ⟨request, List.mem_cons_self, (List.mem_singleton.mp hc).symm⟩
      · cases hc
    · obtain ⟨request', hmem, hcall⟩ := ih hc
      exact ⟨request', List.mem_cons_of_mem _ hmem, hcall⟩

/-- The payments of the server are those of the service. -/
theorem served_ledger (requests : List PaymentsRequest) :
    (served number randomUUID requests).ledger =
      (PaymentsService.after randomUUID (calls number randomUUID .empty requests)).ledger := by
  obtain ⟨gate, hstate⟩ := (serve_refines number randomUUID .empty requests).state
  rw [served, hstate]
  rfl

theorem served_valid (number : String → JsNumber) (hinj : Function.Injective randomUUID)
    (requests : List PaymentsRequest) :
    (served number randomUUID requests).ledger.Valid randomUUID := by
  rw [served_ledger]
  exact PaymentsService.after_valid hinj _

theorem served_grows (hinj : Function.Injective randomUUID) (before rest : List PaymentsRequest) :
    (served number randomUUID before).ledger.Grows
      (served number randomUUID (before ++ rest)).ledger := by
  rw [served_ledger, served_ledger, calls_append]
  exact PaymentsService.after_grows hinj _ _

theorem read_status (hinj : Function.Injective randomUUID) {requests : List PaymentsRequest}
    {paymentId : String} {r : PaymentRecord}
    (hr : (served number randomUUID requests).ledger.payments.lookup paymentId = some r) :
    (handle number randomUUID (served number randomUUID requests)
      (.getPaymentStatus paymentId)).1 = .ok (.status ⟨paymentId, r.status⟩) := by
  have hown := (served_valid number hinj requests).own paymentId r hr
  have hr : (served number randomUUID requests).paymentsById.lookup paymentId = some r := hr
  simp only [handle, getPaymentStatus, PaymentsService.getStatus, hr, Option.map_some, hown]
  rfl

/-- An answer that is no error is that of the service. -/
theorem handle_ok {before : List PaymentsRequest} {request : PaymentsRequest}
    {reply : PaymentsReply}
    (h : (handle number randomUUID (served number randomUUID before) request).1 = .ok reply) :
    ∃ a, ((PaymentsService.after randomUUID (calls number randomUUID .empty before)).call randomUUID
        request.call).1 = a ∧ a.response = .ok reply ∧ ∀ rest,
      (served number randomUUID (before ++ request :: rest)).ledger =
        (PaymentsService.after randomUUID (calls number randomUUID .empty before ++ request.call ::
          calls number randomUUID (handle number randomUUID (served number randomUUID before)
            request).2 rest)).ledger := by
  have hpasses : request.passes number (served number randomUUID before) = true := by
    by_contra hno
    obtain ⟨e, he, _⟩ := handle_refuses randomUUID (by simpa using hno)
    rw [h] at he
    cases he
  obtain ⟨gate, hstate⟩ := (serve_refines number randomUUID .empty before).state
  have hcalls : ∀ rest, calls number randomUUID .empty (before ++ request :: rest) =
      calls number randomUUID .empty before ++ request.call :: calls number randomUUID
        (handle number randomUUID (served number randomUUID before) request).2 rest := by
    intro rest
    rw [calls_append]
    have hpasses : request.passes number (serve number randomUUID .empty before).2 = true := hpasses
    simp only [calls, hpasses, if_true]
    rfl
  refine ⟨_, rfl, ?_, fun rest => by rw [served_ledger, hcalls]⟩
  rw [handle_passes randomUUID hpasses, served, hstate, PaymentsService.call_withGate] at h
  exact h

theorem original_kind (before : List PaymentCall) (c : PaymentCall) :
    (PaymentsService.original before c).request.kind = c.request.kind := by
  unfold PaymentsService.original
  cases hfind : before.find? (fun c' => c.request.key.isSome &&
      (c'.request.kind = c.request.kind && c'.request.key = c.request.key)) with
  | none => rfl
  | some c' =>
    have hc' := List.find?_some hfind
    simp only [Bool.and_eq_true, decide_eq_true_eq] at hc'
    exact hc'.2.1

theorem original_firstUse {before : List PaymentsRequest} {request : PaymentsRequest}
    (h : FirstUse before request) :
    PaymentsService.original (calls number randomUUID .empty before) request.call =
      request.call := by
  unfold PaymentsService.original
  rw [List.find?_eq_none.mpr]
  · rfl
  intro c hc hmatch
  obtain ⟨request', hmem, rfl⟩ := calls_mem hc
  simp only [Bool.and_eq_true, decide_eq_true_eq] at hmatch
  rw [h request' hmem hmatch.2.1 hmatch.2.2] at hmatch
  cases hmatch.1

/-- What a client was told of a payment, it reads ever after: the payment is
known, and its status is the one it was told or a later one. -/
theorem read_after (number : String → JsNumber) {randomUUID : Nat → String}
    (hinj : Function.Injective randomUUID) (before rest : List PaymentsRequest)
    {request : PaymentsRequest} {reply : PaymentsReply}
    (h : (handle number randomUUID (served number randomUUID before) request).1 = .ok reply)
    {paymentId : String} {told : PaymentStatus} (ht : Tells before request reply paymentId told) :
    ∃ status, told.Leads status ∧
      (handle number randomUUID (served number randomUUID (before ++ request :: rest))
        (.getPaymentStatus paymentId)).1 = .ok (.status ⟨paymentId, status⟩) := by
  obtain ⟨a, ha, hresponse, hledger⟩ := handle_ok h
  have habout := PaymentsService.answer_about_original randomUUID hinj
    (calls number randomUUID .empty before)
    (calls number randomUUID (handle number randomUUID (served number randomUUID before) request).2
      rest) request.call
  rw [ha, ← hledger rest] at habout
  have hvalid := served_valid number hinj (before ++ request :: rest)
  cases request with
  | authorize payload =>
    cases a with
    | outcome o => cases ha
    | status result => cases ha
    | authorized result =>
      obtain rfl := Except.ok.inj hresponse
      obtain ⟨rfl, rfl⟩ := ht
      have hkind := original_kind (calls number randomUUID .empty before)
        (PaymentsRequest.authorize payload).call
      generalize PaymentsService.original (calls number randomUUID .empty before)
        (PaymentsRequest.authorize payload).call = c at habout hkind
      cases c with
      | capture input | refund input | getStatus id => cases hkind
      | authorize input =>
        obtain ⟨r, hr, _⟩ := habout
        refine ⟨r.status, ?_, read_status hinj hr⟩
        rcases hvalid.status _ r hr with hs | hs | hs <;> simp [hs, PaymentStatus.Leads]
  | getPaymentStatus id =>
    cases a with
    | authorized result => cases ha
    | outcome o => cases ha
    | status result =>
      cases result with
      | none => cases hresponse
      | some result =>
        obtain rfl := Except.ok.inj hresponse
        obtain ⟨rfl, rfl⟩ := ht
        have hread := PaymentAnswer.status.inj ha
        obtain ⟨r, hr, rfl⟩ := Option.map_eq_some_iff.mp hread
        have hr : (served number randomUUID before).ledger.payments.lookup id = some r := by
          rw [served_ledger]
          exact hr
        obtain rfl := (served_valid number hinj before).own id r hr
        obtain ⟨r', hr', _, hleads⟩ := served_grows hinj before _ _ r hr
        exact ⟨r'.status, hleads, read_status hinj hr'⟩
  | capture payload =>
    cases a with
    | authorized result => cases ha
    | status result => cases ha
    | outcome o =>
      cases o with
      | error code message => cases hresponse
      | ok response =>
        obtain rfl := Except.ok.inj hresponse
        obtain ⟨rfl, rfl, hfirst⟩ := ht
        rw [original_firstUse hfirst] at habout
        obtain ⟨r, hr, hs⟩ := habout
        refine ⟨r.status, ?_, read_status hinj hr⟩
        rcases hs with hs | hs <;> simp [hs, PaymentStatus.Leads]
  | refund payload =>
    cases a with
    | authorized result => cases ha
    | status result => cases ha
    | outcome o =>
      cases o with
      | error code message => cases hresponse
      | ok response =>
        obtain rfl := Except.ok.inj hresponse
        obtain ⟨rfl, rfl, hfirst⟩ := ht
        rw [original_firstUse hfirst] at habout
        obtain ⟨r, hr, hs⟩ := habout
        exact ⟨r.status, .inl hs, read_status hinj hr⟩

def penSale : PaymentsRequest := .authorize ⟨"order-1", "10.00", "USD", some "k", some false⟩

/-- After the refund neither a capture nor the repeated sale changes what is read. -/
theorem read_after_refund :
    (handle PaymentsGrpcClient.decimals PaymentsService.tally
      (served PaymentsGrpcClient.decimals PaymentsService.tally
        ([penSale] ++ .refund ⟨"x", none⟩ :: [.capture ⟨"x", none⟩, penSale]))
      (.getPaymentStatus "x")).1 = .ok (.status ⟨"x", .refunded⟩) := by
  have hrefund : (handle PaymentsGrpcClient.decimals PaymentsService.tally
      (served PaymentsGrpcClient.decimals PaymentsService.tally [penSale])
      (.refund ⟨"x", none⟩)).1 = .ok (.operation ⟨true, "payment refunded"⟩) := by decide +kernel
  obtain ⟨status, hleads, hread⟩ := read_after PaymentsGrpcClient.decimals
    PaymentsService.tally_injective [penSale] [.capture ⟨"x", none⟩, penSale] hrefund
    ⟨rfl, rfl, fun _ _ _ _ => rfl⟩
  rw [hread, hleads.refunded]

end PaymentsGrpcController

end Ecomm
