import Ecomm.PaymentRetries
import Ecomm.PaymentsServer

/-! What `PaymentsGrpcClient` tells the caller: when an error that is not to be
retried has left no payment, and that calls with one key charge once. -/

namespace Ecomm

structure DomainErrorPayload where
  code : String
  message : String
  retryable : Bool
  deriving DecidableEq

structure HttpException where
  status : Nat
  payload : DomainErrorPayload
  deriving DecidableEq

def OrdersPaymentError.exception : OrdersPaymentError → HttpException
  | validation message => ⟨400, "ORDERS_PAYMENT_VALIDATION_FAILED", message, false⟩
  | notFound message => ⟨404, "ORDERS_PAYMENT_NOT_FOUND", message, false⟩
  | conflict message => ⟨409, "ORDERS_PAYMENT_CONFLICT", message, false⟩
  | timeout message => ⟨504, "ORDERS_PAYMENT_TIMEOUT", message, true⟩
  | unavailable message => ⟨503, "ORDERS_PAYMENT_UNAVAILABLE", message, true⟩
  | integration message => ⟨502, "ORDERS_PAYMENT_INTEGRATION_ERROR", message, false⟩

namespace PaymentsGrpcClient

open PaymentsGrpcController (handle handle_passes handle_refuses)

def getPaymentStatus (paymentId : String) (fate : Fate) (s : PaymentsService) :
    Except OrdersPaymentError GetPaymentStatusResult :=
  let reply : Except CallError GetPaymentStatusResult :=
    match fate with
    | .answered => (PaymentsGrpcController.getPaymentStatus s paymentId).mapError
        (fun e => .rpc e.code (some e.message))
    | .failed error _ => .error error
  reply.mapError mapRpcError

variable {number : String → JsNumber} {randomUUID : Nat → String}

theorem handle_authorize (s : PaymentsService) (payload : AuthorizePaymentRequest) :
    handle number randomUUID s (.authorize payload) =
      ((PaymentsGrpcController.authorize number randomUUID s payload).1.map .authorized,
        (PaymentsGrpcController.authorize number randomUUID s payload).2) := rfl

theorem isValid_received (payload : AuthorizePaymentRequest) :
    (PaymentsRequest.authorize payload.received).isValid number =
      (PaymentsRequest.authorize payload).isValid number := rfl

/-- The error of the server for a request that it refuses. -/
theorem authorize_error {s : PaymentsService} {payload : AuthorizePaymentRequest} {e : RpcException}
    (h : (PaymentsGrpcController.authorize number randomUUID s payload).1 = .error e) :
    (e.code = .invalidArgument ∧ (PaymentsRequest.authorize payload).isValid number = false) ∨
      e.code = .unavailable := by
  have hhandle : (handle number randomUUID s (.authorize payload)).1 = .error e := by
    rw [handle_authorize, h]
    rfl
  by_cases hpasses : (PaymentsRequest.authorize payload).passes number s = true
  · rw [handle_passes randomUUID hpasses] at hhandle
    cases hhandle
  · obtain ⟨e', he, hcode⟩ := handle_refuses randomUUID
      (by simpa using hpasses : (PaymentsRequest.authorize payload).passes number s = false)
    obtain rfl := Except.error.inj (he.symm.trans hhandle)
    rcases hcode with ⟨hcode, hinvalid, _⟩ | ⟨_, hcode, _⟩
    · exact .inl ⟨hcode, hinvalid⟩
    · exact .inr hcode

/-- An error of the client's own, which says nothing about the server and does not
count as an outage or a timeout. -/
def Fate.Opaque (fate : Fate) : Prop :=
  ∃ error executed, fate = .failed error executed ∧ error ≠ .timeoutError ∧
    ∀ details, error ≠ .rpc .unavailable details ∧ error ≠ .rpc .deadlineExceeded details

/-- An attempt that ends for good without an answer was refused as invalid, or
its answer was replaced. -/
theorem attempt_error {payload : AuthorizePaymentRequest} {fate : Fate} {s : PaymentsService}
    {e : CallError} (h : (attempt number randomUUID payload fate s).1 = .error e)
    (hretryable : (mapRpcError e).exception.payload.retryable = false) :
    (PaymentsRequest.authorize payload).isValid number = false ∨ Fate.Opaque fate := by
  cases fate with
  | failed error executed =>
    obtain rfl := Except.error.inj h
    refine .inr ⟨error, executed, rfl, ?_, fun details => ⟨?_, ?_⟩⟩
    · rintro rfl
      cases hretryable
    · rintro rfl
      cases hretryable
    · rintro rfl
      cases hretryable
  | answered =>
    left
    cases hreply : (PaymentsGrpcController.authorize number randomUUID s payload.received).1 with
    | ok result =>
      simp only [attempt, hreply] at h
      cases h
    | error reply =>
      simp only [attempt, hreply] at h
      obtain rfl := Except.error.inj h
      rcases authorize_error hreply with ⟨_, hinvalid⟩ | hcode
      · rwa [isValid_received] at hinvalid
      · dsimp only at hretryable
        rw [hcode] at hretryable
        cases hretryable

theorem attempt_service' (payload : AuthorizePaymentRequest) (fate : Fate) (s : PaymentsService) :
    (attempt number randomUUID payload fate s).2 = s ∨
      (attempt number randomUUID payload fate s).2 =
        (handle number randomUUID s (.authorize payload.received)).2 := by
  cases fate with
  | answered => exact .inr rfl
  | failed error executed =>
    cases executed with
    | false => exact .inl rfl
    | true => exact .inr rfl

theorem attempt_invalid {payload : AuthorizePaymentRequest}
    (h : (PaymentsRequest.authorize payload).isValid number = false) (fate : Fate)
    (s : PaymentsService) : (attempt number randomUUID payload fate s).2 = s := by
  have hpasses : (PaymentsRequest.authorize payload.received).passes number s = false := by
    rw [PaymentsRequest.passes, isValid_received, h, Bool.false_and]
  obtain ⟨e, _, hcode⟩ := handle_refuses randomUUID hpasses
  rcases hcode with ⟨_, _, hs⟩ | ⟨_, _, hvalid, _⟩
  · rcases attempt_service' payload fate s with hsame | hhandle
    · exact hsame
    · exact hhandle.trans hs
  · rw [isValid_received, h] at hvalid
    cases hvalid

/-- What holds of the service before a call, and is kept by its attempts and by
all that comes between, holds before each of them. The last one gives the answer. -/
theorem attempts_rule {I : PaymentsService → Prop} {payload : AuthorizePaymentRequest}
    (hrun : ∀ s calls, I s → I (PaymentsService.run randomUUID s calls).2)
    (hattempt : ∀ s fate, I s → I (attempt number randomUUID payload fate s).2)
    (network : Nat → Leg) (left i : Nat) {s : PaymentsService} (hs : I s) :
    (∀ round ∈ (attempts number randomUUID payload network left i s).2, I round.before ∧
        round.after = (attempt number randomUUID payload round.fate round.before).2) ∧
      ∃ round, (attempts number randomUUID payload network left i s).2.getLast? = some round ∧
        (attempts number randomUUID payload network left i s).1 =
          (attempt number randomUUID payload round.fate round.before).1 := by
  induction left generalizing i s with
  | zero =>
    refine ⟨?_, _, rfl, rfl⟩
    intro round hround
    obtain rfl := List.mem_singleton.mp hround
    exact ⟨hrun s _ hs, rfl⟩
  | succ left ih =>
    have hbefore := hrun s (network i).meanwhile hs
    have hafter := hattempt _ (network i).fate hbefore
    obtain ⟨hrounds, last, hlast, hanswer⟩ := ih (i + 1) hafter
    rw [attempts]
    cases hreply : (attempt number randomUUID payload (network i).fate
        (PaymentsService.run randomUUID s (network i).meanwhile).2).1 with
    | ok result =>
      refine ⟨?_, _, rfl, hreply.symm⟩
      intro round hround
      obtain rfl := List.mem_singleton.mp hround
      exact ⟨hbefore, rfl⟩
    | error e =>
      dsimp only
      split
      · refine ⟨?_, last, ?_, hanswer⟩
        · intro round hround
          rcases List.mem_cons.mp hround with rfl | hround
          · exact ⟨hbefore, rfl⟩
          · exact hrounds round hround
        · rw [List.getLast?_cons, hlast]
          rfl
      · refine ⟨?_, _, rfl, hreply.symm⟩
        intro round hround
        obtain rfl := List.mem_singleton.mp hround
        exact ⟨hbefore, rfl⟩

/-- The service after some calls, whatever its gate. -/
def Reached (randomUUID : Nat → String) (s : PaymentsService) : Prop :=
  ∃ calls gate, s = (PaymentsService.after randomUUID calls).withGate gate

theorem Reached.run {s : PaymentsService} (h : Reached randomUUID s) (calls : List PaymentCall) :
    Reached randomUUID (PaymentsService.run randomUUID s calls).2 := by
  obtain ⟨calls₀, gate, rfl⟩ := h
  refine ⟨calls₀ ++ calls, gate, ?_⟩
  rw [PaymentsService.run_withGate, PaymentsService.after, PaymentsService.after,
    PaymentsService.run_append]

theorem Reached.handle {s : PaymentsService} (h : Reached randomUUID s)
    (request : PaymentsRequest) : Reached randomUUID (handle number randomUUID s request).2 := by
  by_cases hpasses : request.passes number s = true
  · have hcall := h.run [request.call]
    rw [handle_passes randomUUID hpasses]
    exact hcall
  · obtain ⟨_, _, hcode⟩ := handle_refuses randomUUID
      (by simpa using hpasses : request.passes number s = false)
    rcases hcode with ⟨_, _, hs⟩ | ⟨orderId, _, _, _, hs⟩
    · rwa [hs]
    · obtain ⟨calls, gate, rfl⟩ := h
      rw [hs]
      exact ⟨calls, _, rfl⟩

theorem Reached.attempt {s : PaymentsService} (h : Reached randomUUID s)
    (payload : AuthorizePaymentRequest) (fate : Fate) :
    Reached randomUUID (attempt number randomUUID payload fate s).2 := by
  rcases attempt_service' payload fate s with hs | hs
  · rwa [hs]
  · rw [hs]
    exact h.handle _

/-- An answered attempt leaves the payment that it names. -/
theorem attempt_ok (hinj : Function.Injective randomUUID) {payload : AuthorizePaymentRequest}
    {fate : Fate} {s : PaymentsService} (hs : Reached randomUUID s)
    {result : AuthorizePaymentResult}
    (h : (attempt number randomUUID payload fate s).1 = .ok result) :
    (PaymentsRequest.authorize payload).isValid number = true ∧
      ∃ record, (attempt number randomUUID payload fate s).2.paymentsById.lookup
        result.paymentId = some record ∧ record.paymentId = result.paymentId := by
  cases fate with
  | failed error executed => cases h
  | answered =>
    have hreply : (PaymentsGrpcController.authorize number randomUUID s payload.received).1 =
        .ok result := by
      cases hreply : (PaymentsGrpcController.authorize number randomUUID s payload.received).1 with
      | error e =>
        simp only [attempt, hreply] at h
        cases h
      | ok result' =>
        simp only [attempt, hreply] at h
        exact congrArg _ (Except.ok.inj h)
    have hhandle : (handle number randomUUID s (.authorize payload.received)).1 =
        .ok (.authorized result) := by
      rw [handle_authorize, hreply]
      rfl
    have hpasses : (PaymentsRequest.authorize payload.received).passes number s = true := by
      by_contra hno
      obtain ⟨e, he, _⟩ := handle_refuses randomUUID (by simpa using hno)
      rw [hhandle] at he
      cases he
    have hvalid : (PaymentsRequest.authorize payload.received).isValid number = true :=
      (Bool.and_eq_true _ _ ▸ hpasses : _ ∧ _).1
    rw [isValid_received] at hvalid
    refine ⟨hvalid, ?_⟩
    obtain ⟨calls, gate, rfl⟩ := hs
    let c := (PaymentsRequest.authorize payload.received).call
    have hstate : (attempt number randomUUID payload .answered
        ((PaymentsService.after randomUUID calls).withGate gate)).2.paymentsById =
          (PaymentsService.after randomUUID (calls ++ [c])).ledger.payments := by
      have hafter : (attempt number randomUUID payload .answered
          ((PaymentsService.after randomUUID calls).withGate gate)).2 = (handle number randomUUID
            ((PaymentsService.after randomUUID calls).withGate gate)
              (.authorize payload.received)).2 := rfl
      rw [hafter, handle_passes randomUUID hpasses, PaymentsService.call_withGate,
        PaymentsService.after, PaymentsService.after, PaymentsService.run_append]
      rfl
    rw [handle_passes randomUUID hpasses, PaymentsService.call_withGate] at hhandle
    have habout := PaymentsService.answer_about_original randomUUID hinj calls [] c
    have hkind := PaymentsGrpcController.original_kind calls c
    have hanswer : ((PaymentsService.after randomUUID calls).call randomUUID c).1 =
        .authorized result := by
      cases hcall : ((PaymentsService.after randomUUID calls).call randomUUID c).1 with
      | authorized result' =>
        have hresponse :
            PaymentAnswer.response (.authorized result') = .ok (.authorized result) := by
          rw [← hcall]
          exact hhandle
        exact congrArg _ (PaymentsReply.authorized.inj (Except.ok.inj hresponse))
      | outcome o => cases hcall
      | status r => cases hcall
    rw [hanswer] at habout
    rw [hstate]
    generalize PaymentsService.original calls c = c' at habout hkind
    cases c' with
    | capture input | refund input | getStatus id => cases hkind
    | authorize input =>
      obtain ⟨record, hrecord, _⟩ := habout
      exact ⟨record, hrecord, (PaymentsService.after_valid hinj _).own _ record hrecord⟩

/-- What the caller can conclude from the answer. An error that is not retryable
comes from an invalid request, which no attempt has acted on, or is a status
that the network put in the place of the last reply. -/
theorem authorize_settled (number : String → JsNumber) {randomUUID : Nat → String}
    (hinj : Function.Injective randomUUID) (config : String → Option String)
    (payload : AuthorizePaymentRequest) (network : Nat → Leg) (calls : List PaymentCall)
    {answer : Except OrdersPaymentError AuthorizePaymentResult} {rounds : List Round}
    (h : authorize number randomUUID (config "PAYMENTS_GRPC_AUTHORIZE_MAX_RETRIES") payload network
      (PaymentsService.after randomUUID calls) = (answer, rounds)) :
    answer = settled (authorizing number config (overNetwork number randomUUID payload network)
        (fun _ s => s) (PaymentsService.after randomUUID calls)) ∧
      ((PaymentsRequest.authorize payload).isValid number = false →
        ∀ round ∈ rounds, round.after = round.before) ∧
      (∀ e, answer = .error e → e.exception.payload.retryable = false →
        (PaymentsRequest.authorize payload).isValid number = false ∨
          ∃ round, rounds.getLast? = some round ∧ Fate.Opaque round.fate) ∧
      ∀ result, answer = .ok result → (PaymentsRequest.authorize payload).isValid number = true ∧
        ∃ round record, rounds.getLast? = some round ∧
          round.after.paymentsById.lookup result.paymentId = some record ∧
            record.paymentId = result.paymentId := by
  obtain ⟨rfl, rfl⟩ := Prod.mk.inj h
  have hstart : Reached randomUUID (PaymentsService.after randomUUID calls) :=
    ⟨calls, (PaymentsService.after randomUUID calls).transientFailOnceGate, rfl⟩
  obtain ⟨hrounds, last, hlast, hanswer⟩ := attempts_rule (I := Reached randomUUID)
    (fun _ calls hs => Reached.run hs calls) (fun _ fate hs => hs.attempt payload fate) network
    (maxRetries number config) 0 hstart
  obtain ⟨hreached, hafter⟩ := hrounds last (List.mem_of_getLast? hlast)
  refine ⟨(authorize_retry number randomUUID config payload network _).1, ?_, ?_, ?_⟩
  · intro hinvalid round hround
    rw [(hrounds round hround).2, attempt_invalid hinvalid]
  · intro e he hretryable
    have hattempt : ((attempt number randomUUID payload last.fate last.before).1.mapError
        mapRpcError) = .error e := (congrArg _ hanswer.symm).trans he
    cases herror : (attempt number randomUUID payload last.fate last.before).1 with
    | ok result =>
      rw [herror] at hattempt
      cases hattempt
    | error e' =>
      rw [herror] at hattempt
      obtain rfl := Except.error.inj hattempt
      exact (attempt_error herror hretryable).imp_right (fun hfate => ⟨last, hlast, hfate⟩)
  · intro result hresult
    have hattempt : ((attempt number randomUUID payload last.fate last.before).1.mapError
        mapRpcError) = .ok result := (congrArg _ hanswer.symm).trans hresult
    cases hok : (attempt number randomUUID payload last.fate last.before).1 with
    | error e =>
      rw [hok] at hattempt
      cases hattempt
    | ok result' =>
      rw [hok] at hattempt
      obtain rfl := Except.ok.inj hattempt
      obtain ⟨hvalid, record, hrecord, hid⟩ := attempt_ok hinj hreached hok
      rw [← hafter] at hrecord
      exact ⟨hvalid, last, record, hlast, hrecord, hid⟩

/-- The first reply is lost, and the second attempt is answered. -/
def lossy : Nat → Leg
  | 0 => ⟨[], .failed (.rpc .unavailable none) true⟩
  | _ => ⟨[], .answered⟩

/-- The server executes the attempt, and the client gets INTERNAL. -/
def garbling : Nat → Leg := fun _ => ⟨[], .failed (.rpc (.other 13) none) true⟩

def penPayment (amount : String) : AuthorizePaymentRequest :=
  ⟨"order-1", amount, "USD", some "k", none⟩

/-- A payment that is answered, an invalid request, and a payment that is stored
although the error says not to retry. -/
theorem authorize_settled_lossy :
    (∃ rounds, authorize decimals PaymentsService.tally none (penPayment "10.00") lossy
        (PaymentsService.after PaymentsService.tally []) =
          (.ok ⟨"x", .authorized⟩, rounds) ∧
      ∃ round record, rounds.getLast? = some round ∧
        round.after.paymentsById.lookup "x" = some record ∧ record.paymentId = "x") ∧
    (∃ e rounds, authorize decimals PaymentsService.tally none (penPayment "0") lossy
        (PaymentsService.after PaymentsService.tally []) = (.error e, rounds) ∧
      ∀ round ∈ rounds, round.after = round.before) ∧
    ∃ e rounds, authorize decimals PaymentsService.tally none (penPayment "10.00") garbling
        (PaymentsService.after PaymentsService.tally []) = (.error e, rounds) ∧
      e.exception.payload.retryable = false ∧ added rounds = 1 ∧
        ∃ round, rounds.getLast? = some round ∧ Fate.Opaque round.fate := by
  have hpaid : (authorize decimals PaymentsService.tally none (penPayment "10.00") lossy
      (PaymentsService.after PaymentsService.tally [])).1 = .ok ⟨"x", .authorized⟩ := by
    decide +kernel
  have hrefused : (authorize decimals PaymentsService.tally none (penPayment "0") lossy
      (PaymentsService.after PaymentsService.tally [])).1 =
        .error (.validation "Payments validation failed: amount must be > 0") := by
    decide +kernel
  have hgarbled : (authorize decimals PaymentsService.tally none (penPayment "10.00") garbling
      (PaymentsService.after PaymentsService.tally [])).1 =
        .error (.integration "Payments RPC failed: unknown grpc error") := by
    decide +kernel
  refine ⟨?_, ?_, ?_⟩
  · obtain ⟨_, round, record, hlast, hrecord⟩ := (authorize_settled decimals
      PaymentsService.tally_injective (fun _ => none) (penPayment "10.00") lossy [] rfl).2.2.2 _
        hpaid
    exact ⟨_, Prod.ext hpaid rfl, round, record, hlast, hrecord⟩
  · have hsettled := authorize_settled decimals PaymentsService.tally_injective (fun _ => none)
      (penPayment "0") lossy [] rfl
    exact ⟨_, _, Prod.ext hrefused rfl, hsettled.2.1 (by decide +kernel)⟩
  · have hsettled := authorize_settled decimals PaymentsService.tally_injective (fun _ => none)
      (penPayment "10.00") garbling [] rfl
    refine ⟨_, _, Prod.ext hgarbled rfl, rfl, by decide +kernel, ?_⟩
    exact (hsettled.2.2.1 _ hgarbled rfl).resolve_left (by decide +kernel)

/-! ## Calls with one key -/

structure ClientCall where
  configured : Option String
  payload : AuthorizePaymentRequest
  network : Nat → Leg

/-- The service after the attempts of a call. -/
def lastState (s : PaymentsService) (rounds : List Round) : PaymentsService :=
  (rounds.getLast?.map Round.after).getD s

/-- What a call has before it: its attempt `i`, and at most `left` after that. -/
inductive Progress where
  | pending (i left : Nat)
  | ended (answer : Except CallError AuthorizePaymentResult)

section Overlapping

variable (number : String → JsNumber) (randomUUID : Nat → String)

def ClientCall.start (c : ClientCall) : Progress :=
  .pending 0 (getAuthorizeMaxRetries number c.configured)

/-- The next attempt of a call. -/
def ClientCall.next (c : ClientCall) (s : PaymentsService) : Progress → Option (Progress × Round)
  | .ended _ => none
  | .pending i left =>
    let before := (PaymentsService.run randomUUID s (c.network i).meanwhile).2
    let reply := attempt number randomUUID c.payload (c.network i).fate before
    let round : Round := { fate := (c.network i).fate, before, after := reply.2 }
    match left with
    | 0 => some (.ended reply.1, round)
    | left + 1 =>
      match reply.1 with
      | .ok result => some (.ended (.ok result), round)
      | .error e =>
        if isTransientGrpcError e then some (.pending (i + 1) left, round)
        else some (.ended (.error e), round)

/-- Calls that overlap: `schedule` says which one makes its next attempt. -/
def authorizeAll (calls : Nat → ClientCall) :
    List Nat → (Nat → Progress) → PaymentsService → List Round × (Nat → Progress)
  | [], progress, _ => ([], progress)
  | j :: schedule, progress, s =>
    match (calls j).next number randomUUID s (progress j) with
    | none => authorizeAll calls schedule progress s
    | some (later, round) =>
      let rest := authorizeAll calls schedule (Function.update progress j later) round.after
      (round :: rest.1, rest.2)

theorem ClientCall.next_cases {c : ClientCall} {s : PaymentsService} {progress later : Progress}
    {round : Round} (h : c.next number randomUUID s progress = some (later, round)) :
    ∃ i, round.before = (PaymentsService.run randomUUID s (c.network i).meanwhile).2 ∧
      round.after = (attempt number randomUUID c.payload round.fate round.before).2 := by
  cases progress with
  | ended answer => cases h
  | pending i left =>
    refine ⟨i, ?_⟩
    cases left with
    | zero =>
      obtain ⟨rfl, rfl⟩ := Prod.mk.inj (Option.some.inj h)
      exact ⟨rfl, rfl⟩
    | succ left =>
      simp only [next] at h
      split at h
      · obtain ⟨rfl, rfl⟩ := Prod.mk.inj (Option.some.inj h)
        exact ⟨rfl, rfl⟩
      · split at h
        · obtain ⟨rfl, rfl⟩ := Prod.mk.inj (Option.some.inj h)
          exact ⟨rfl, rfl⟩
        · obtain ⟨rfl, rfl⟩ := Prod.mk.inj (Option.some.inj h)
          exact ⟨rfl, rfl⟩

/-- The first of the attempts that a call has before it is its next one. -/
theorem attempts_next (c : ClientCall) (left i : Nat) (s : PaymentsService) :
    ∃ later round, c.next number randomUUID s (.pending i left) = some (later, round) ∧
      ((∃ answer, later = .ended answer ∧
          attempts number randomUUID c.payload c.network left i s = (answer, [round])) ∨
        ∃ left', left = left' + 1 ∧ later = .pending (i + 1) left' ∧
          let course := attempts number randomUUID c.payload c.network left' (i + 1) round.after
          attempts number randomUUID c.payload c.network left i s =
            (course.1, round :: course.2)) := by
  cases left with
  | zero => exact ⟨_, _, rfl, .inl ⟨_, rfl, rfl⟩⟩
  | succ left =>
    rw [ClientCall.next, attempts]
    generalize attempt number randomUUID c.payload (c.network i).fate
      (PaymentsService.run randomUUID s (c.network i).meanwhile).2 = reply
    obtain ⟨outcome, after⟩ := reply
    cases outcome with
    | ok result => exact ⟨_, _, rfl, .inl ⟨_, rfl, rfl⟩⟩
    | error e =>
      dsimp only
      split_ifs
      · exact ⟨_, _, rfl, .inr ⟨left, rfl, rfl, rfl⟩⟩
      · exact ⟨_, _, rfl, .inl ⟨_, rfl, rfl⟩⟩

theorem lastState_cons (s : PaymentsService) (round : Round) (rounds : List Round) :
    lastState s (round :: rounds) = lastState round.after rounds := by
  rw [lastState, List.getLast?_cons, lastState]
  cases rounds.getLast? <;> rfl

theorem authorizeAll_ended {calls : Nat → ClientCall} {progress : Nat → Progress} {j : Nat}
    {answer : Except CallError AuthorizePaymentResult} (h : progress j = .ended answer) (n : Nat)
    (schedule : List Nat) (s : PaymentsService) :
    authorizeAll number randomUUID calls (List.replicate n j ++ schedule) progress s =
      authorizeAll number randomUUID calls schedule progress s := by
  induction n with
  | zero => rfl
  | succ n ih =>
    rw [List.replicate_succ, List.cons_append, authorizeAll, h]
    exact ih

/-- A call that is not interrupted makes the attempts of `authorize`, so calls
one after another are among the schedules. -/
theorem authorizeAll_alone (calls : Nat → ClientCall) (schedule : List Nat) {j i left : Nat}
    {progress : Nat → Progress} (hj : progress j = .pending i left) (s : PaymentsService) :
    let course := attempts number randomUUID (calls j).payload (calls j).network left i s
    let rest := authorizeAll number randomUUID calls schedule
      (Function.update progress j (.ended course.1)) (lastState s course.2)
    authorizeAll number randomUUID calls (List.replicate (left + 1) j ++ schedule) progress s =
      (course.2 ++ rest.1, rest.2) := by
  induction left generalizing i s progress with
  | zero =>
    obtain ⟨_, round, hnext, ⟨answer, rfl, hattempts⟩ | ⟨_, hleft, _⟩⟩ :=
      attempts_next number randomUUID (calls j) 0 i s
    · rw [List.replicate_one, List.singleton_append, authorizeAll, hj, hnext, hattempts]
      rfl
    · cases hleft
  | succ left ih =>
    obtain ⟨_, round, hnext, ⟨answer, rfl, hattempts⟩ | ⟨left', hleft, rfl, hattempts⟩⟩ :=
      attempts_next number randomUUID (calls j) (left + 1) i s
    · rw [List.replicate_succ, List.cons_append, authorizeAll, hj, hnext, hattempts]
      dsimp only
      rw [authorizeAll_ended number randomUUID (Function.update_self _ _ _)]
      rfl
    · obtain rfl := Nat.succ.inj hleft
      have hlater :=
        ih (Function.update_self j (Progress.pending (i + 1) left) progress) round.after
      dsimp only at hlater
      rw [Function.update_idem] at hlater
      rw [List.replicate_succ, List.cons_append, authorizeAll, hj, hnext, hattempts]
      dsimp only
      rw [hlater, lastState_cons]
      rfl

end Overlapping

section Budget

variable {k : String}

theorem next_budget (number : String → JsNumber) (randomUUID : Nat → String) {c : ClientCall}
    (hk : truthy c.payload.idempotencyKey = some k) {s : PaymentsService}
    {progress later : Progress} {round : Round}
    (h : c.next number randomUUID s progress = some (later, round)) :
    (round.after.size - round.before.size) + budget k round.after ≤ budget k s := by
  obtain ⟨i, hbefore, hafter⟩ := ClientCall.next_cases number randomUUID h
  rw [hafter]
  calc _ ≤ budget k round.before := attempt_budget number randomUUID hk round.fate round.before
    _ ≤ budget k s := by
      rw [hbefore]
      exact run_budget randomUUID hk s _

theorem authorizeAll_budget (number : String → JsNumber) (randomUUID : Nat → String)
    {calls : Nat → ClientCall} {schedule : List Nat}
    (hk : ∀ j ∈ schedule, truthy (calls j).payload.idempotencyKey = some k)
    (progress : Nat → Progress) (s : PaymentsService) :
    added (authorizeAll number randomUUID calls schedule progress s).1 ≤ budget k s := by
  induction schedule generalizing progress s with
  | nil => exact Nat.zero_le _
  | cons j schedule ih =>
    have hrest := ih (fun j' hj' => hk j' (List.mem_cons_of_mem _ hj'))
    rw [authorizeAll]
    cases hnext : (calls j).next number randomUUID s (progress j) with
    | none => exact hrest progress s
    | some step =>
      obtain ⟨later, round⟩ := step
      have hround := next_budget number randomUUID (hk j List.mem_cons_self) hnext
      have hlater := hrest (Function.update progress j later) round.after
      dsimp only
      rw [added_cons]
      omega

end Budget

/-- However many calls are made with one key, however their attempts overlap, and
whatever the network does, at most one payment is added. That the attempts of a call
are those of `retry` is `authorizeAll_alone` with `authorize_retry`. -/
theorem authorizeAll_added (number : String → JsNumber) (randomUUID : Nat → String) {k : String}
    {calls : Nat → ClientCall} {schedule : List Nat}
    (hk : ∀ j ∈ schedule, truthy (calls j).payload.idempotencyKey = some k) (s : PaymentsService) :
    added (authorizeAll number randomUUID calls schedule
      (fun j => (calls j).start number) s).1 ≤ 1 := by
  exact (authorizeAll_budget number randomUUID hk _ s).trans (budget_le_one k s)

/-- Two calls that overlap, and a third one after them: one payment is stored. -/
theorem authorizeAll_added_lossy :
    added (authorizeAll decimals PaymentsService.tally (fun _ => ⟨none, penPayment "10.00", lossy⟩)
        [0, 1, 1, 0, 2, 2] (fun _ => .pending 0 2) .empty).1 ≤ 1 ∧
      0 < added (authorizeAll decimals PaymentsService.tally
        (fun _ => ⟨none, penPayment "10.00", lossy⟩) [0, 1, 1, 0, 2, 2]
          (fun _ => .pending 0 2) .empty).1 :=
  ⟨authorizeAll_added decimals PaymentsService.tally (k := "k") (fun _ _ => rfl) .empty,
    by decide +kernel⟩

end PaymentsGrpcClient

end Ecomm
