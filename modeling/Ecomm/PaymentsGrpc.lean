import Ecomm.Json
import Ecomm.PaymentRuns

/-! `PaymentsGrpcClient.authorize` and `PaymentsGrpcController.authorize`, with
the network between them. -/

namespace Ecomm

/-- The status codes that the service or the client names; `other` is any other one. -/
inductive GrpcStatus where
  | invalidArgument
  | deadlineExceeded
  | notFound
  | alreadyExists
  | failedPrecondition
  | unavailable
  | other (code : Nat)
  deriving DecidableEq

structure RpcException where
  code : GrpcStatus
  message : String
  deriving DecidableEq

structure AuthorizePaymentRequest where
  orderId : String
  amount : String
  currency : String
  idempotencyKey : Option String
  simulateUnavailableOnce : Option Bool

/-- The error with which an attempt ends at the client; `other` has no status code,
as when the call could not be made. -/
inductive CallError where
  | timeoutError
  | rpc (code : GrpcStatus) (details : Option String)
  | other (details : Option String)
  deriving DecidableEq

inductive OrdersPaymentError where
  | validation (message : String)
  | notFound (message : String)
  | conflict (message : String)
  | timeout (message : String)
  | unavailable (message : String)
  | integration (message : String)
  deriving DecidableEq

/-- `/^[A-Z]{3}$/`. -/
def isCurrencyCode (s : String) : Bool :=
  s.toList.length = 3 && s.toList.all (fun c => 'A' ≤ c && c ≤ 'Z')

/-- The request as the server decodes it: fields that were not sent have the
defaults of their types. -/
def AuthorizePaymentRequest.received (payload : AuthorizePaymentRequest) :
    AuthorizePaymentRequest :=
  { payload with
    idempotencyKey := some (payload.idempotencyKey.getD "")
    simulateUnavailableOnce := some (payload.simulateUnavailableOnce.getD false) }

section

variable (number : String → JsNumber) (randomUUID : Nat → String)

def isPositive : JsNumber → Bool
  | .finite x => 0 < x
  | _ => false

namespace PaymentsGrpcController

def authorize (s : PaymentsService) (payload : AuthorizePaymentRequest) :
    Except RpcException AuthorizePaymentResult × PaymentsService :=
  if payload.orderId = "" then (.error ⟨.invalidArgument, "order_id is required"⟩, s)
  else if ¬ isPositive (number payload.amount) then
    (.error ⟨.invalidArgument, "amount must be > 0"⟩, s)
  else if ¬ isCurrencyCode payload.currency then
    (.error ⟨.invalidArgument, "currency must be 3 uppercase letters"⟩, s)
  else
    match s.shouldFailTransient payload.orderId payload.simulateUnavailableOnce with
    | (true, s) => (.error ⟨.unavailable, "transient provider outage"⟩, s)
    | (false, s) =>
      ((s.authorize randomUUID
        { orderId := payload.orderId, amount := payload.amount, currency := payload.currency
          idempotencyKey := payload.idempotencyKey }).map .ok id)

end PaymentsGrpcController

/-- What becomes of an attempt: the client gets the answer of the server, or an
error of any other origin, whether or not the server has executed it. -/
inductive Fate where
  | answered
  | failed (error : CallError) (executed : Bool)

def Fate.executed : Fate → Bool
  | .answered => true
  | .failed _ executed => executed

/-- An attempt, and what the service does for others before it. -/
structure Leg where
  meanwhile : List PaymentCall
  fate : Fate

structure Round where
  fate : Fate
  before : PaymentsService
  after : PaymentsService

namespace PaymentsGrpcClient

/-- `Number.isInteger(value) && value >= 0`, or the default. -/
def getAuthorizeMaxRetries (configured : Option String) : Nat :=
  match number (configured.getD "2") with
  | .finite x => if x.den = 1 ∧ 0 ≤ x then x.num.toNat else 2
  | _ => 2

def isTransientGrpcError : CallError → Bool
  | .rpc code _ => code = .unavailable
  | .timeoutError | .other _ => false

def mapRpcError : CallError → OrdersPaymentError
  | .timeoutError => .timeout "Payments RPC timeout exceeded"
  | .rpc code details =>
    let message := details.getD "unknown grpc error"
    match code with
    | .invalidArgument => .validation ("Payments validation failed: " ++ message)
    | .notFound => .notFound ("Payment not found: " ++ message)
    | .failedPrecondition => .conflict ("Payment state conflict: " ++ message)
    | .alreadyExists => .conflict ("Payment duplicate request conflict: " ++ message)
    | .deadlineExceeded => .timeout ("Payments deadline exceeded: " ++ message)
    | .unavailable => .unavailable ("Payments temporarily unavailable: " ++ message)
    | .other _ => .integration ("Payments RPC failed: " ++ message)
  | .other details => .integration ("Payments RPC failed: " ++ details.getD "unknown grpc error")

def attempt (payload : AuthorizePaymentRequest) (fate : Fate) (s : PaymentsService) :
    Except CallError AuthorizePaymentResult × PaymentsService :=
  let reply := PaymentsGrpcController.authorize number randomUUID s payload.received
  match fate with
  | .answered => (reply.1.mapError (fun e => .rpc e.code (some e.message)), reply.2)
  | .failed error executed => (.error error, if executed then reply.2 else s)

/-- The attempts of one call from the `i`-th on, of which `left` are retries. -/
def attempts (payload : AuthorizePaymentRequest) (network : Nat → Leg) :
    Nat → Nat → PaymentsService → Except CallError AuthorizePaymentResult × List Round
  | 0, i, s =>
    let before := (PaymentsService.run randomUUID s (network i).meanwhile).2
    let reply := attempt number randomUUID payload (network i).fate before
    (reply.1, [{ fate := (network i).fate, before, after := reply.2 }])
  | left + 1, i, s =>
    let before := (PaymentsService.run randomUUID s (network i).meanwhile).2
    let reply := attempt number randomUUID payload (network i).fate before
    let round : Round := { fate := (network i).fate, before, after := reply.2 }
    match reply.1 with
    | .ok result => (.ok result, [round])
    | .error e =>
      if isTransientGrpcError e then
        let later := attempts payload network left (i + 1) reply.2
        (later.1, round :: later.2)
      else (.error e, [round])

/-- The answer of one call, and its attempts as the service saw them. -/
def authorize (configured : Option String) (payload : AuthorizePaymentRequest)
    (network : Nat → Leg) (s : PaymentsService) :
    Except OrdersPaymentError AuthorizePaymentResult × List Round :=
  let (answer, rounds) := attempts number randomUUID payload network
    (getAuthorizeMaxRetries number configured) 0 s
  (answer.mapError mapRpcError, rounds)

end PaymentsGrpcClient

end

namespace PaymentsService

def size (s : PaymentsService) : Nat := s.paymentsById.keys.length

variable {randomUUID : Nat → String}

theorem shouldFailTransient_payments (s : PaymentsService) (orderId : String)
    (simulate : Option Bool) :
    (s.shouldFailTransient orderId simulate).2.paymentsById = s.paymentsById ∧
      (s.shouldFailTransient orderId simulate).2.authorizeIdempotencyResults =
        s.authorizeIdempotencyResults := by
  unfold shouldFailTransient
  split_ifs <;> exact ⟨rfl, rfl⟩

theorem authorize_size (s : PaymentsService) (input : AuthorizePaymentInput) :
    (s.authorize randomUUID input).2.size ≤ s.size + 1 := by
  unfold authorize
  split
  · exact Nat.le_succ _
  · simp only [size, AList.keys_insert, List.length_cons]
    exact Nat.succ_le_succ (List.length_erase_le)

theorem authorize_cached {s : PaymentsService} {input : AuthorizePaymentInput}
    (h : (cached s.authorizeIdempotencyResults input.idempotencyKey).isSome) :
    (s.authorize randomUUID input).2 = s := by
  obtain ⟨result, hr⟩ := Option.isSome_iff_exists.mp h
  simp [authorize, hr]

theorem cached_persist {V : Type} (storage : StringMap V) {key : Option String}
    (hk : (truthy key).isSome) (v : V) : (cached (persist storage key v) key).isSome := by
  obtain ⟨k, hk⟩ := Option.isSome_iff_exists.mp hk
  simp [cached, hk, persist_lookup]

theorem authorize_caches (s : PaymentsService) {input : AuthorizePaymentInput}
    (hk : (truthy input.idempotencyKey).isSome) :
    (cached (s.authorize randomUUID input).2.authorizeIdempotencyResults
      input.idempotencyKey).isSome := by
  unfold authorize
  split
  · next result hr => simp [hr]
  · exact cached_persist _ hk _

theorem run_cached (randomUUID : Nat → String) {s : PaymentsService} {key : Option String}
    (h : (cached s.authorizeIdempotencyResults key).isSome) (calls : List PaymentCall) :
    (cached (run randomUUID s calls).2.authorizeIdempotencyResults key).isSome := by
  obtain ⟨result, hr⟩ := Option.isSome_iff_exists.mp h
  obtain ⟨k, hk, hlook⟩ := Option.bind_eq_some_iff.mp hr
  have hreply : s.server.replies .authorize k = some (.authorized result) := by
    simp [server, hlook]
  have hlater : (s.server.serveAll (Ledger.perform randomUUID)
      (calls.map PaymentCall.request)).2.replies .authorize k = some (.authorized result) :=
    Idempotent.serveAll_replies (calls.map PaymentCall.request) hreply
  rw [run_server] at hlater
  obtain ⟨result', hr', _⟩ := Option.map_eq_some_iff.mp hlater
  simp [cached, hk, hr']

end PaymentsService

namespace PaymentsGrpcClient

variable {number : String → JsNumber} {randomUUID : Nat → String}

theorem attempt_service (payload : AuthorizePaymentRequest) (fate : Fate) (s : PaymentsService) :
    ((attempt number randomUUID payload fate s).2.paymentsById = s.paymentsById ∧
        (attempt number randomUUID payload fate s).2.authorizeIdempotencyResults =
          s.authorizeIdempotencyResults) ∨
      fate.executed = true ∧ ∃ s' : PaymentsService, s'.paymentsById = s.paymentsById ∧
        s'.authorizeIdempotencyResults = s.authorizeIdempotencyResults ∧
        (attempt number randomUUID payload fate s).2 = (s'.authorize randomUUID
          { orderId := payload.orderId, amount := payload.amount, currency := payload.currency
            idempotencyKey := some (payload.idempotencyKey.getD "") }).2 := by
  have hreply : ∀ s', (PaymentsGrpcController.authorize number randomUUID s payload.received).2 = s' →
      (s'.paymentsById = s.paymentsById ∧
        s'.authorizeIdempotencyResults = s.authorizeIdempotencyResults) ∨
      ∃ s₁ : PaymentsService, s₁.paymentsById = s.paymentsById ∧
        s₁.authorizeIdempotencyResults = s.authorizeIdempotencyResults ∧
        s' = (s₁.authorize randomUUID
          { orderId := payload.orderId, amount := payload.amount, currency := payload.currency
            idempotencyKey := some (payload.idempotencyKey.getD "") }).2 := by
    rintro s' rfl
    have hsame := s.shouldFailTransient_payments payload.received.orderId
      payload.received.simulateUnavailableOnce
    unfold PaymentsGrpcController.authorize
    split
    · exact .inl ⟨rfl, rfl⟩
    split
    · exact .inl ⟨rfl, rfl⟩
    split
    · exact .inl ⟨rfl, rfl⟩
    generalize s.shouldFailTransient payload.received.orderId
      payload.received.simulateUnavailableOnce = gate at hsame
    obtain ⟨fails, s₁⟩ := gate
    cases fails with
    | true => exact .inl hsame
    | false => exact .inr ⟨s₁, hsame.1, hsame.2, rfl⟩
  unfold attempt
  cases fate with
  | answered =>
    rcases hreply _ rfl with h | h
    · exact .inl h
    · exact .inr ⟨rfl, h⟩
  | failed error executed =>
    cases executed with
    | false => exact .inl ⟨rfl, rfl⟩
    | true =>
      rcases hreply _ rfl with h | h
      · exact .inl h
      · exact .inr ⟨rfl, h⟩

def added (rounds : List Round) : Nat :=
  (rounds.map (fun r => r.after.size - r.before.size)).sum

def executed (rounds : List Round) : Nat := rounds.countP (·.fate.executed)

theorem received_key (payload : AuthorizePaymentRequest) :
    truthy (some (payload.idempotencyKey.getD "")) = truthy payload.idempotencyKey := by
  cases payload.idempotencyKey <;> rfl

theorem size_congr {s s' : PaymentsService} (h : s'.paymentsById = s.paymentsById) :
    s'.size = s.size := by
  rw [PaymentsService.size, h, PaymentsService.size]

section Attempts

variable (number : String → JsNumber) (randomUUID : Nat → String)

theorem attempt_size (payload : AuthorizePaymentRequest) (fate : Fate) (s : PaymentsService) :
    (attempt number randomUUID payload fate s).2.size ≤
      s.size + if fate.executed then 1 else 0 := by
  rcases attempt_service payload fate s with ⟨hp, _⟩ | ⟨hexec, s', hp, _, he⟩
  · rw [size_congr hp]
    exact Nat.le_add_right _ _
  · rw [he, hexec, if_pos rfl, ← size_congr hp]
    exact PaymentsService.authorize_size s' _

/-- With a key, the first attempt that adds a payment leaves a reply. -/
theorem attempt_keyed {payload : AuthorizePaymentRequest}
    (hk : (truthy payload.idempotencyKey).isSome) (fate : Fate) (s : PaymentsService) :
    (attempt number randomUUID payload fate s).2.size = s.size ∧
        ((PaymentsService.cached s.authorizeIdempotencyResults payload.idempotencyKey).isSome →
          (PaymentsService.cached (attempt number randomUUID payload fate
            s).2.authorizeIdempotencyResults payload.idempotencyKey).isSome) ∨
      (attempt number randomUUID payload fate s).2.size ≤ s.size + 1 ∧
        ¬ (PaymentsService.cached s.authorizeIdempotencyResults payload.idempotencyKey).isSome ∧
        (PaymentsService.cached (attempt number randomUUID payload fate
          s).2.authorizeIdempotencyResults payload.idempotencyKey).isSome := by
  have hcached : ∀ storage : StringMap AuthorizePaymentResult,
      PaymentsService.cached storage (some (payload.idempotencyKey.getD "")) =
        PaymentsService.cached storage payload.idempotencyKey := by
    intro storage
    simp only [PaymentsService.cached, received_key]
  rcases attempt_service payload fate s with ⟨hp, hc⟩ | ⟨_, s', hp, hc, he⟩
  · exact .inl ⟨size_congr hp, fun h => by rwa [hc]⟩
  · rw [he, ← size_congr hp, ← hc, ← hcached, ← hcached]
    by_cases hin : (PaymentsService.cached s'.authorizeIdempotencyResults
        (some (payload.idempotencyKey.getD ""))).isSome
    · rw [PaymentsService.authorize_cached hin]
      exact .inl ⟨rfl, id⟩
    · exact .inr ⟨PaymentsService.authorize_size s' _, hin,
        PaymentsService.authorize_caches s' (by rwa [received_key])⟩

theorem added_cons (r : Round) (rounds : List Round) :
    added (r :: rounds) = (r.after.size - r.before.size) + added rounds := rfl

theorem executed_cons (r : Round) (rounds : List Round) :
    executed (r :: rounds) = executed rounds + if r.fate.executed then 1 else 0 :=
  List.countP_cons

theorem added_round {r : Round} {rest : List Round}
    (hsize : r.after.size ≤ r.before.size + if r.fate.executed then 1 else 0)
    (hrest : added rest ≤ executed rest) : added (r :: rest) ≤ executed (r :: rest) := by
  rw [added_cons, executed_cons]
  omega

theorem executed_round (r : Round) (rest : List Round) :
    executed (r :: rest) ≤ executed rest + 1 := by
  rw [executed_cons]
  split <;> omega

theorem attempts_rounds (payload : AuthorizePaymentRequest) (network : Nat → Leg) (left i : Nat)
    (s : PaymentsService) {before after : PaymentsService}
    (hb : (PaymentsService.run randomUUID s (network i).meanwhile).2 = before)
    (ha : (attempt number randomUUID payload (network i).fate before).2 = after) :
    ∃ rest, (attempts number randomUUID payload network left i s).2 =
        { fate := (network i).fate, before, after } :: rest ∧
      (rest = [] ∨ ∃ left', left = left' + 1 ∧
        rest = (attempts number randomUUID payload network left' (i + 1) after).2) := by
  subst hb ha
  cases left with
  | zero => exact ⟨[], rfl, .inl rfl⟩
  | succ left =>
    rw [attempts]
    cases hanswer : (attempt number randomUUID payload (network i).fate
        (PaymentsService.run randomUUID s (network i).meanwhile).2).1 with
    | ok result => exact ⟨[], rfl, .inl rfl⟩
    | error e =>
      dsimp only
      split
      · exact ⟨_, rfl, .inr ⟨left, rfl, rfl⟩⟩
      · exact ⟨[], rfl, .inl rfl⟩

theorem attempts_added (payload : AuthorizePaymentRequest) (network : Nat → Leg) (left i : Nat)
    (s : PaymentsService) :
    added (attempts number randomUUID payload network left i s).2 ≤
        executed (attempts number randomUUID payload network left i s).2 ∧
      executed (attempts number randomUUID payload network left i s).2 ≤ left + 1 := by
  induction left generalizing i s with
  | zero =>
    have hsize := attempt_size number randomUUID payload (network i).fate
      (PaymentsService.run randomUUID s (network i).meanwhile).2
    obtain ⟨rest, he, rfl | ⟨_, hl, _⟩⟩ :=
      attempts_rounds number randomUUID payload network 0 i s rfl rfl
    · rw [he]
      exact ⟨added_round hsize (Nat.le_refl 0), executed_round _ []⟩
    · cases hl
  | succ left ih =>
    have hsize := attempt_size number randomUUID payload (network i).fate
      (PaymentsService.run randomUUID s (network i).meanwhile).2
    obtain ⟨rest, he, hrest⟩ :=
      attempts_rounds number randomUUID payload network (left + 1) i s rfl rfl
    have hlater : added rest ≤ executed rest ∧ executed rest ≤ left + 1 := by
      rcases hrest with rfl | ⟨left', hl, rfl⟩
      · exact ⟨Nat.le_refl 0, Nat.zero_le _⟩
      · obtain rfl := Nat.succ.inj hl
        exact ih (i + 1) _
    rw [he]
    exact ⟨added_round hsize hlater.1,
      (executed_round _ rest).trans (Nat.add_le_add_right hlater.2 1)⟩

/-- How many payments calls with the key can still add. -/
def budget (k : String) (s : PaymentsService) : Nat :=
  if (s.authorizeIdempotencyResults.lookup k).isSome then 0 else 1

theorem budget_le_one (k : String) (s : PaymentsService) : budget k s ≤ 1 := by
  unfold budget
  split <;> omega

section Budget

variable {k : String} {payload : AuthorizePaymentRequest}

theorem cached_of_key (hk : truthy payload.idempotencyKey = some k) (s : PaymentsService) :
    PaymentsService.cached s.authorizeIdempotencyResults payload.idempotencyKey =
      s.authorizeIdempotencyResults.lookup k := by
  rw [PaymentsService.cached, hk]
  rfl

theorem run_budget (hk : truthy payload.idempotencyKey = some k) (s : PaymentsService)
    (calls : List PaymentCall) :
    budget k (PaymentsService.run randomUUID s calls).2 ≤ budget k s := by
  have hkeep : (PaymentsService.cached s.authorizeIdempotencyResults
      payload.idempotencyKey).isSome → (PaymentsService.cached (PaymentsService.run randomUUID s
        calls).2.authorizeIdempotencyResults payload.idempotencyKey).isSome :=
    fun h => PaymentsService.run_cached randomUUID h calls
  rw [cached_of_key hk, cached_of_key hk] at hkeep
  unfold budget
  split
  · exact Nat.zero_le _
  · next hno =>
    rw [if_neg (fun h => hno (hkeep h))]

theorem attempt_budget (hk : truthy payload.idempotencyKey = some k) (fate : Fate)
    (s : PaymentsService) :
    ((attempt number randomUUID payload fate s).2.size - s.size) +
      budget k (attempt number randomUUID payload fate s).2 ≤ budget k s := by
  have hkey : (truthy payload.idempotencyKey).isSome := by rw [hk]; rfl
  have hkeyed := attempt_keyed number randomUUID hkey fate s
  rw [cached_of_key hk, cached_of_key hk] at hkeyed
  unfold budget
  rcases hkeyed with ⟨hsize, hkeep⟩ | ⟨hsize, hnew, hnow⟩
  · rw [hsize, Nat.sub_self, Nat.zero_add]
    split
    · exact Nat.zero_le _
    · next hno => rw [if_neg (fun h => hno (hkeep h))]
  · rw [if_pos hnow, if_neg hnew]
    omega

theorem attempts_budget (hk : truthy payload.idempotencyKey = some k) (network : Nat → Leg)
    (left i : Nat) (s : PaymentsService) :
    added (attempts number randomUUID payload network left i s).2 ≤ budget k s := by
  induction left generalizing i s with
  | zero =>
    have hrun := run_budget randomUUID hk s (network i).meanwhile
    have hround := attempt_budget number randomUUID hk (network i).fate
      (PaymentsService.run randomUUID s (network i).meanwhile).2
    obtain ⟨rest, he, rfl | ⟨_, hl, _⟩⟩ :=
      attempts_rounds number randomUUID payload network 0 i s rfl rfl
    · rw [he, added_cons]
      simp only [added, List.map_nil, List.sum_nil]
      omega
    · cases hl
  | succ left ih =>
    have hrun := run_budget randomUUID hk s (network i).meanwhile
    have hround := attempt_budget number randomUUID hk (network i).fate
      (PaymentsService.run randomUUID s (network i).meanwhile).2
    obtain ⟨rest, he, hrest⟩ :=
      attempts_rounds number randomUUID payload network (left + 1) i s rfl rfl
    have hlater : added rest ≤ budget k (attempt number randomUUID payload (network i).fate
        (PaymentsService.run randomUUID s (network i).meanwhile).2).2 := by
      rcases hrest with rfl | ⟨left', hl, rfl⟩
      · exact Nat.zero_le _
      · obtain rfl := Nat.succ.inj hl
        exact ih (i + 1) _
    rw [he, added_cons]
    dsimp only
    omega

end Budget

end Attempts

/-- One call adds at most one payment if it has a key, and else at most one for
each attempt that was executed. `authorize_retry` connects its attempts with
`retry` of rxjs. -/
theorem authorize_added (number : String → JsNumber) (randomUUID : Nat → String)
    (configured : Option String) (payload : AuthorizePaymentRequest) (network : Nat → Leg)
    (s : PaymentsService) :
    added (authorize number randomUUID configured payload network s).2 ≤
        (if (truthy payload.idempotencyKey).isSome then 1
          else executed (authorize number randomUUID configured payload network s).2) ∧
      executed (authorize number randomUUID configured payload network s).2 ≤
        getAuthorizeMaxRetries number configured + 1 := by
  have hall := attempts_added number randomUUID payload network
    (getAuthorizeMaxRetries number configured) 0 s
  refine ⟨?_, hall.2⟩
  split
  · next hk =>
    obtain ⟨k, hk⟩ := Option.isSome_iff_exists.mp hk
    exact (attempts_budget number randomUUID hk network
      (getAuthorizeMaxRetries number configured) 0 s).trans (budget_le_one k s)
  · exact hall.1

def decimals : String → JsNumber
  | "2" => .finite 2
  | "10.00" => .finite 10
  | _ => .nan

/-- Without a key a lost reply makes the client charge twice. -/
theorem authorize_added_twice :
    ¬ ∀ payload network,
      added (authorize decimals PaymentsService.tally none payload network .empty).2 ≤ 1 := by
  intro h
  have htwice := h
    { orderId := "6b1f9f3e-0000-4000-8000-000000000001", amount := "10.00", currency := "USD"
      idempotencyKey := none, simulateUnavailableOnce := none }
    (fun i => ⟨[], if i = 0 then .failed (.rpc .unavailable none) true else .answered⟩)
  revert htwice
  decide +kernel

end PaymentsGrpcClient

end Ecomm
