import Mathlib.Algebra.Order.Floor.Semiring
import Mathlib.Data.Rat.Floor
import Ecomm.Lib.RxRetry
import Ecomm.PaymentsGrpc

/-! The attempts that one `PaymentsGrpcClient.authorize` makes: how many there
are, the waits between them, and the deadline that they share. -/

namespace Ecomm

namespace PaymentsGrpcClient

section Getters

variable (number : String → JsNumber)

/-- `Number.isFinite(value) && value > 0`, or the default. -/
def positiveOr (fallback : ℚ) : JsNumber → ℚ
  | .finite x => if 0 < x then x else fallback
  | _ => fallback

variable (config : String → Option String)

def getTimeoutMs : ℚ :=
  positiveOr 1000 (number
    (((config "PAYMENTS_GRPC_TIMEOUT_MS").or (config "PAYMENTS_RPC_TIMEOUT_MS")).getD "1000"))

def getRetryBackoffMs : ℚ :=
  positiveOr 150 (number ((config "PAYMENTS_GRPC_RETRY_BACKOFF_MS").getD "150"))

def getRetryMaxBackoffMs : ℚ :=
  positiveOr 2000 (number ((config "PAYMENTS_GRPC_RETRY_MAX_BACKOFF_MS").getD "2000"))

def maxRetries : Nat :=
  getAuthorizeMaxRetries number (config "PAYMENTS_GRPC_AUTHORIZE_MAX_RETRIES")

/-- `Math.min(baseBackoffMs * Math.pow(2, retryIndex - 1), maxBackoffMs)`. -/
def delayMs (retryIndex : Nat) : ℚ :=
  min (getRetryBackoffMs number config * 2 ^ (retryIndex - 1)) (getRetryMaxBackoffMs number config)

def retryDelay (error : CallError) (retryIndex : Nat) : Rx.Notifier CallError :=
  if ¬ isTransientGrpcError error then .throwError error
  else .timer (delayMs number config retryIndex)

variable {σ : Type}

/-- The subscription of `authorize`, for any course of the attempts. -/
def authorizing (attempt : Nat → σ → Except CallError AuthorizePaymentResult × σ)
    (sleep : ℚ → σ → σ) (s : σ) : Rx.Retried CallError AuthorizePaymentResult σ :=
  Rx.retry attempt sleep (retryDelay number config) (maxRetries number config) s

def settled (run : Rx.Retried CallError AuthorizePaymentResult σ) :
    Except OrdersPaymentError AuthorizePaymentResult :=
  run.result.mapError mapRpcError

theorem positiveOr_pos {fallback : ℚ} (h : 0 < fallback) (x : JsNumber) :
    0 < positiveOr fallback x := by
  cases x with
  | finite x =>
    rw [positiveOr]
    split
    · assumption
    · exact h
  | nan | infinite => exact h

theorem delayMs_mono {i j : Nat} (h : i ≤ j) : delayMs number config i ≤ delayMs number config j := by
  have hbase : 0 < getRetryBackoffMs number config := positiveOr_pos (by norm_num) _
  have hpow : (2 : ℚ) ^ (i - 1) ≤ 2 ^ (j - 1) :=
    pow_le_pow_right₀ (by norm_num) (Nat.sub_le_sub_right h 1)
  exact min_le_min_right _ (mul_le_mul_of_nonneg_left hpow hbase.le)

theorem delayMs_le (i : Nat) : delayMs number config i ≤ getRetryMaxBackoffMs number config :=
  min_le_right _ _

theorem retryDelay_eq (e : CallError) (i : Nat) :
    retryDelay number config e i =
      if isTransientGrpcError e then .timer (delayMs number config i) else .throwError e := by
  rw [retryDelay]
  split_ifs with h
  · rfl
  · rfl

end Getters

section Network

variable (number : String → JsNumber) (randomUUID : Nat → String)

/-- The course of the attempts against a service behind `network`. -/
def overNetwork (payload : AuthorizePaymentRequest) (network : Nat → Leg) (i : Nat)
    (s : PaymentsService) : Except CallError AuthorizePaymentResult × PaymentsService :=
  attempt number randomUUID payload (network i).fate
    (PaymentsService.run randomUUID s (network i).meanwhile).2

theorem attempts_retry (config : String → Option String) (payload : AuthorizePaymentRequest)
    (network : Nat → Leg) (left i : Nat) (s : PaymentsService) :
    let run := Rx.retryFrom (overNetwork number randomUUID payload network) (fun _ s => s)
      (retryDelay number config) left i s
    (attempts number randomUUID payload network left i s).1 = run.result ∧
      (attempts number randomUUID payload network left i s).2.getLast?.map Round.after =
        some run.last := by
  induction left generalizing i s with
  | zero => exact ⟨rfl, rfl⟩
  | succ left ih =>
    rw [attempts]
    generalize hreply : attempt number randomUUID payload (network i).fate
      (PaymentsService.run randomUUID s (network i).meanwhile).2 = reply
    have hsubscribe : overNetwork number randomUUID payload network i s = reply := hreply
    obtain ⟨outcome, after⟩ := reply
    cases outcome with
    | ok result =>
      rw [Rx.retryFrom_ok hsubscribe]
      exact ⟨rfl, rfl⟩
    | error e =>
      by_cases htransient : isTransientGrpcError e = true
      · have htimer : retryDelay number config e (i + 1) =
            .timer (delayMs number config (i + 1)) := by
          rw [retryDelay_eq, if_pos htransient]
        obtain ⟨hanswer, hafter⟩ := ih (i + 1) after
        dsimp only
        rw [if_pos htransient, (Rx.retryFrom_timer hsubscribe htimer left).1,
          (Rx.retryFrom_timer hsubscribe htimer left).2]
        refine ⟨hanswer, ?_⟩
        rw [List.getLast?_cons, ← hafter]
        cases hrounds : (attempts number randomUUID payload network left (i + 1)
            after).2.getLast? with
        | none =>
          rw [hrounds] at hafter
          cases hafter
        | some round => rfl
      · rw [Rx.retryFrom_throw hsubscribe (by rw [retryDelay_eq, if_neg htransient])]
        dsimp only
        rw [if_neg htransient]
        exact ⟨rfl, rfl⟩

/-- What `authorize` answers, and the service that it leaves, are those of the
subscription to `retry`. -/
theorem authorize_retry (config : String → Option String) (payload : AuthorizePaymentRequest)
    (network : Nat → Leg) (s : PaymentsService) :
    let run := authorizing number config (overNetwork number randomUUID payload network)
      (fun _ s => s) s
    let call := authorize number randomUUID (config "PAYMENTS_GRPC_AUTHORIZE_MAX_RETRIES") payload
      network s
    call.1 = settled run ∧ call.2.getLast?.map Round.after = some run.last := by
  obtain ⟨hanswer, hlast⟩ := attempts_retry number randomUUID config payload network
    (maxRetries number config) 0 s
  exact ⟨congrArg (Except.mapError mapRpcError) hanswer, hlast⟩

end Network

def isUnavailable (outcome : Except CallError AuthorizePaymentResult) : Bool :=
  Rx.isRetried isTransientGrpcError outcome

theorem isUnavailable_iff {outcome : Except CallError AuthorizePaymentResult} :
    isUnavailable outcome = true ↔ ∃ details, outcome = .error (.rpc .unavailable details) := by
  rw [isUnavailable, Rx.isRetried_iff]
  constructor
  · intro ⟨e, he, htransient⟩
    cases e with
    | timeoutError | other details => cases htransient
    | rpc code details =>
      have hcode : code = .unavailable := of_decide_eq_true htransient
      exact ⟨details, by rw [he, hcode]⟩
  · intro ⟨details, he⟩
    exact ⟨_, he, rfl⟩

/-- The retries are as many as configured, or as many as the attempts that
end with `UNAVAILABLE` before any other; the waits grow up to the cap. They are
the delays requested of `timer`: Node sets one above 2^31 - 1 ms to 1 ms. -/
theorem authorize_attempts (number : String → JsNumber) (config : String → Option String)
    (outcome : Nat → Except CallError AuthorizePaymentResult) :
    let run := authorizing number config (fun i (_ : Unit) => (outcome i, ())) (fun _ s => s) ()
    let n := run.attempts.length
    1 ≤ n ∧
    ((n - 1 : Nat) : ℕ∞) = min (maxRetries number config : ℕ∞)
      (Rx.leadingRun (fun i => isUnavailable (outcome i))) ∧
    run.attempts = (List.range n).map outcome ∧
    settled run = (outcome (n - 1)).mapError mapRpcError ∧
    (∀ i, i + 1 < n → ∃ details, outcome i = .error (.rpc .unavailable details)) ∧
    run.waits = (List.range (n - 1)).map (fun i =>
      min (getRetryBackoffMs number config * 2 ^ i) (getRetryMaxBackoffMs number config)) ∧
    run.waits.Pairwise (· ≤ ·) ∧
    ∀ wait ∈ run.waits, wait ≤ getRetryMaxBackoffMs number config := by
  intro run n
  obtain ⟨m, hm, hall, hrun⟩ := Rx.retry_outcomes outcome (retryDelay_eq number config)
    (maxRetries number config)
  have hrun : run = _ := hrun
  have hn : n = m + 1 := by simp [n, hrun]
  have hwaits : run.waits = (List.range m).map (fun i => delayMs number config (i + 1)) := by
    rw [hrun]
  refine ⟨by omega, by rw [hn]; exact hm, by rw [hn, hrun], by rw [hn, hrun]; rfl, ?_, ?_, ?_, ?_⟩
  · intro i hi
    exact isUnavailable_iff.mp (hall i (by omega))
  · rw [hwaits, hn]
    rfl
  · rw [hwaits, List.pairwise_map]
    exact List.pairwise_lt_range.imp (fun h => delayMs_mono number config (by omega))
  · intro wait hwait
    rw [hwaits] at hwait
    obtain ⟨i, _, rfl⟩ := List.mem_map.mp hwait
    exact delayMs_le number config _

/-- The server's answer to an attempt, and how long after the start of the
attempt it comes. -/
structure Answer where
  latency : Nat
  reply : Except CallError AuthorizePaymentResult

section Clock

variable (expired : Option String) (timeoutMs deadline : ℚ)

/-- A call of the generated client: it fails once the clock has passed the
deadline, with `expired` as the details of the error. -/
def call (answer : Answer) (now : Nat) : Except CallError AuthorizePaymentResult × Nat :=
  if (now + answer.latency : Nat) ≤ deadline then (answer.reply, now + answer.latency)
  else (.error (.rpc .deadlineExceeded expired), max now (⌊deadline⌋₊ + 1))

/-- `timeout(timeoutMs)` on the call. -/
def timed (answer : Answer) (now : Nat) : Except CallError AuthorizePaymentResult × Nat :=
  let (outcome, ended) := call expired deadline answer now
  if ended ≤ now + timeoutMs then (outcome, ended)
  else (.error .timeoutError, ⌈now + timeoutMs⌉₊)

end Clock

/-- A timer fires at the first reading of the clock at which it is due. -/
def sleep (wait : ℚ) (now : Nat) : Nat := now + ⌈wait⌉₊

/-- `authorize` called at `start`; all its attempts carry the same deadline. -/
def authorizeAt (number : String → JsNumber) (config : String → Option String)
    (expired : Option String) (server : Nat → Answer) (start : Nat) :
    Rx.Retried CallError AuthorizePaymentResult Nat :=
  let timeoutMs := getTimeoutMs number config
  authorizing number config
    (fun i => timed expired timeoutMs (start + timeoutMs) (server i)) sleep start

/-- The server is unavailable for `k` attempts, then grants the payment, and
keeps each attempt waiting for the timeout at most. -/
structure Outage (number : String → JsNumber) (config : String → Option String)
    (server : Nat → Answer) (k : Nat) (result : AuthorizePaymentResult) : Prop where
  retries : k ≤ maxRetries number config
  unavailable : ∀ i < k, ∃ details, (server i).reply = .error (.rpc .unavailable details)
  granted : (server k).reply = .ok result
  inTime : ∀ i ≤ k, (server i).latency ≤ getTimeoutMs number config

def elapsed (number : String → JsNumber) (config : String → Option String)
    (server : Nat → Answer) (k : Nat) : Nat :=
  ((List.range k).map (fun i => (server i).latency + ⌈delayMs number config (i + 1)⌉₊)).sum

section Deadline

variable {number : String → JsNumber} {config : String → Option String} {expired : Option String}
  {server : Nat → Answer} {k : Nat} {result : AuthorizePaymentResult}

theorem timed_answered (expired : Option String) {timeoutMs deadline : ℚ} {answer : Answer}
    {now : Nat} (hlatency : answer.latency ≤ timeoutMs) (h : (now + answer.latency : Nat) ≤ deadline) :
    timed expired timeoutMs deadline answer now = (answer.reply, now + answer.latency) := by
  have hend : ((now + answer.latency : Nat) : ℚ) ≤ now + timeoutMs := by
    rw [Nat.cast_add]
    exact add_le_add_right hlatency _
  rw [timed, call, if_pos h]
  simp only [hend, if_true]

theorem timed_late (expired : Option String) (timeoutMs : ℚ) {deadline : ℚ} {answer : Answer}
    {now : Nat} (h : ¬ (now + answer.latency : Nat) ≤ deadline) :
    ∃ e ended, timed expired timeoutMs deadline answer now = (.error e, ended) ∧
      isTransientGrpcError e = false := by
  rw [timed, call, if_neg h]
  dsimp only
  split_ifs
  · exact ⟨_, _, rfl, rfl⟩
  · exact ⟨_, _, rfl, rfl⟩

theorem elapsed_succ (i : Nat) :
    elapsed number config server (i + 1) = elapsed number config server i +
      ((server i).latency + ⌈delayMs number config (i + 1)⌉₊) := by
  simp [elapsed, List.range_succ]

theorem elapsed_mono (number : String → JsNumber) (config : String → Option String)
    (server : Nat → Answer) {i j : Nat} (h : i ≤ j) :
    elapsed number config server i ≤ elapsed number config server j := by
  induction j, h using Nat.le_induction with
  | base => exact Nat.le_refl _
  | succ j hj ih =>
    rw [elapsed_succ]
    omega

def remaining (number : String → JsNumber) (config : String → Option String)
    (expired : Option String) (server : Nat → Answer) (deadline : ℚ) (start left i : Nat) :
    Rx.Retried CallError AuthorizePaymentResult Nat :=
  Rx.retryFrom (fun i => timed expired (getTimeoutMs number config) deadline (server i)) sleep
    (retryDelay number config) left i (start + elapsed number config server i)

theorem remaining_cut {deadline : ℚ} {start i : Nat}
    (h : ¬ (start + elapsed number config server i + (server i).latency : Nat) ≤ deadline)
    (left : Nat) :
    (remaining number config expired server deadline start left i).result ≠ .ok result := by
  obtain ⟨e, ended, hcut, htransient⟩ := timed_late expired (getTimeoutMs number config) h
  have hthrow : retryDelay number config e (i + 1) = .throwError e := by
    rw [retryDelay_eq, htransient]
    rfl
  rw [remaining, Rx.retryFrom_throw hcut hthrow]
  intro he
  cases he

theorem remaining_retried (h : Outage number config server k result) {deadline : ℚ}
    {start i : Nat} (hi : i < k)
    (hin : (start + elapsed number config server i + (server i).latency : Nat) ≤ deadline)
    (left : Nat) :
    (remaining number config expired server deadline start (left + 1) i).result =
      (remaining number config expired server deadline start left (i + 1)).result := by
  obtain ⟨details, hreply⟩ := h.unavailable i hi
  have hanswer := timed_answered expired (h.inTime i hi.le) hin
  rw [hreply] at hanswer
  have hend : sleep (delayMs number config (i + 1))
      (start + elapsed number config server i + (server i).latency) =
        start + elapsed number config server (i + 1) := by
    rw [elapsed_succ, sleep]
    omega
  rw [remaining, (Rx.retryFrom_timer hanswer (retryDelay_eq number config _ _) left).1, hend,
    remaining]

/-- The attempts from the `i`-th on get the answer, if it comes before the
deadline. -/
theorem remaining_granted (expired : Option String) (h : Outage number config server k result)
    (deadline : ℚ) (start : Nat) {left i rest : Nat} (hk : k = i + rest) (hrest : rest ≤ left) :
    (remaining number config expired server deadline start left i).result = .ok result ↔
      ((start + elapsed number config server k + (server k).latency : Nat) : ℚ) ≤ deadline := by
  induction rest generalizing i left with
  | zero =>
    obtain rfl : k = i := hk
    by_cases hin : ((start + elapsed number config server k + (server k).latency : Nat) : ℚ) ≤
        deadline
    · have hanswer := timed_answered expired (h.inTime k (Nat.le_refl k)) hin
      rw [h.granted] at hanswer
      refine iff_of_true ?_ hin
      rw [remaining, Rx.retryFrom_ok hanswer]
    · exact iff_of_false (remaining_cut hin left) hin
  | succ rest ih =>
    by_cases hin : ((start + elapsed number config server i + (server i).latency : Nat) : ℚ) ≤
        deadline
    · obtain ⟨left, rfl⟩ : ∃ n, left = n + 1 := ⟨left - 1, by omega⟩
      rw [remaining_retried h (by omega) hin]
      exact ih (by omega) (by omega)
    · -- The attempt that is cut would have ended before the last one.
      have hsooner := elapsed_mono number config server (show i + 1 ≤ k by omega)
      rw [elapsed_succ] at hsooner
      refine iff_of_false (remaining_cut hin left) ?_
      intro hlast
      refine hin (le_trans ?_ hlast)
      exact_mod_cast (by omega : start + elapsed number config server i + (server i).latency ≤
        start + elapsed number config server k + (server k).latency)

end Deadline

/-- The answer is returned exactly if the attempts and the waits before it fit
into the timeout of one attempt. -/
theorem authorize_granted_iff (number : String → JsNumber) (config : String → Option String)
    (expired : Option String) (server : Nat → Answer) (start k : Nat)
    (result : AuthorizePaymentResult) (h : Outage number config server k result) :
    settled (authorizeAt number config expired server start) = .ok result ↔
      ((elapsed number config server k + (server k).latency : Nat) : ℚ) ≤
        getTimeoutMs number config := by
  have hgranted := remaining_granted expired h (start + getTimeoutMs number config) start
    (Nat.zero_add k).symm h.retries
  have hrun : authorizeAt number config expired server start =
      remaining number config expired server (start + getTimeoutMs number config) start
        (maxRetries number config) 0 := rfl
  have hsettled : settled (authorizeAt number config expired server start) = .ok result ↔
      (authorizeAt number config expired server start).result = .ok result := by
    rw [settled]
    cases (authorizeAt number config expired server start).result <;> simp [Except.mapError]
  rw [hsettled, hrun, hgranted, Nat.add_assoc, Nat.cast_add]
  exact add_le_add_iff_left _

def defaults : String → JsNumber
  | "1000" => .finite 1000
  | "2" => .finite 2
  | "150" => .finite 150
  | "2000" => .finite 2000
  | _ => .nan

def payment : AuthorizePaymentResult := ⟨"6b1f9f3e-0000-4000-8000-000000000001", .authorized⟩

/-- The first attempt is refused after 900 ms, the second granted after 100 ms. -/
def slowOutage : Nat → Answer
  | 0 => ⟨900, .error (.rpc .unavailable none)⟩
  | _ => ⟨100, .ok payment⟩

theorem slowOutage_outage : Outage defaults (fun _ => none) slowOutage 1 payment where
  retries := by decide +kernel
  unavailable := by
    intro i hi
    obtain rfl : i = 0 := by omega
    exact ⟨none, rfl⟩
  granted := rfl
  inTime := by
    intro i hi
    obtain rfl | rfl : i = 0 ∨ i = 1 := by omega
    · decide +kernel
    · decide +kernel

theorem slowOutage_late :
    settled (authorizeAt defaults (fun _ => none) none slowOutage 0) = .ok payment ↔
      ((elapsed defaults (fun _ => none) slowOutage 1 + (slowOutage 1).latency : Nat) : ℚ) ≤
        getTimeoutMs defaults (fun _ => none) :=
  authorize_granted_iff defaults (fun _ => none) none slowOutage 0 1 payment slowOutage_outage

/-- A payment that the second attempt would be granted is given up. -/
theorem authorize_misses_grant :
    ¬ ∀ server start k result, Outage defaults (fun _ => none) server k result →
      settled (authorizeAt defaults (fun _ => none) none server start) = .ok result := by
  intro h
  have hlost := h slowOutage 0 1 payment slowOutage_outage
  revert hlost
  decide +kernel

end PaymentsGrpcClient

end Ecomm
