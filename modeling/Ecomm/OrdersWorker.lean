import Ecomm.OrdersService

/-! `OrdersWorkerService`: a delivery is processed and acknowledged, retried
through the retry queue, or dead-lettered. -/

namespace Ecomm

open Concurrent

def base64Char (n : Nat) : Char :=
  if n < 26 then Char.ofNat (65 + n)
  else if n < 52 then Char.ofNat (71 + n)
  else if n < 62 then Char.ofNat (n - 4)
  else if n = 62 then '+'
  else '/'

/-- `Buffer.toString('base64')`. -/
def base64Chars : List UInt8 → List Char
  | [] => []
  | [a] =>
    let n := a.toNat * 16
    [base64Char (n / 64), base64Char (n % 64), '=', '=']
  | [a, b] =>
    let n := (a.toNat * 256 + b.toNat) * 4
    [base64Char (n / 4096), base64Char (n / 64 % 64), base64Char (n % 64), '=']
  | a :: b :: c :: rest =>
    let n := (a.toNat * 256 + b.toNat) * 256 + c.toNat
    base64Char (n / 262144) :: base64Char (n / 4096 % 64) :: base64Char (n / 64 % 64) ::
      base64Char (n % 64) :: base64Chars rest

def base64 (raw : List UInt8) : String := String.ofList (base64Chars raw)

/-- The first `n` UTF-16 code units, without half a pair at the end. -/
def sliceUnits : Nat → List Char → List Char
  | _, [] => []
  | n, c :: cs =>
    let units := if c.toNat < 65536 then 1 else 2
    if units ≤ n then c :: sliceUnits (n - units) cs else []

/-- `describe` is the text of an error: its message. -/
def getShortErrorReason (describe : Thrown → String) (error : Thrown) : String :=
  let firstLine := ((describe error).splitOn "\n").headD "unknown_error"
  String.ofList (sliceUnits 160 firstLine.toList)

/-- `Number.isInteger(parsed) && parsed > 0`, or the fallback. -/
def parsePositiveInt (parsed : JsNumber) (fallback : Nat) : Nat :=
  match parsed with
  | .finite x => if x.den = 1 ∧ 0 < x then x.num.toNat else fallback
  | _ => fallback

theorem parsePositiveInt_pos (parsed : JsNumber) {fallback : Nat} (h : 0 < fallback) :
    0 < parsePositiveInt parsed fallback := by
  unfold parsePositiveInt
  split
  · split
    · next x hx =>
      have := Rat.num_pos.mpr hx.2
      omega
    · exact h
  · exact h

/-- Attempts are counted in doubles, which are exact in the safe range. -/
structure WorkerConfig where
  maxAttempts : Nat
  retryBaseDelayMs : Nat
  retryMaxDelayMs : Nat
  pos : 0 < maxAttempts
  safe : maxAttempts < 2 ^ 53

/-- The configuration from the values of `ORDERS_MAX_ATTEMPTS`,
`ORDERS_RETRY_BASE_DELAY_MS` and `ORDERS_RETRY_MAX_DELAY_MS`. -/
def WorkerConfig.parse (maxAttempts baseDelay maxDelay : JsNumber)
    (safe : parsePositiveInt maxAttempts 3 < 2 ^ 53) : WorkerConfig where
  maxAttempts := parsePositiveInt maxAttempts 3
  retryBaseDelayMs := parsePositiveInt baseDelay 1000
  retryMaxDelayMs := parsePositiveInt maxDelay 30000
  pos := parsePositiveInt_pos maxAttempts (by omega)
  safe := safe

def computeRetryDelayMs (config : WorkerConfig) (nextAttempt : Nat) : Nat :=
  min (config.retryBaseDelayMs * 2 ^ (nextAttempt - 1)) config.retryMaxDelayMs

/-- `Number.isInteger(payload.attempt) && payload.attempt >= 0`, or 0. -/
def attemptOf (payload : Json) : Nat :=
  match payload.get "attempt" with
  | some (.num x) => if x.den = 1 ∧ 0 ≤ x then x.num.toNat else 0
  | _ => 0

/-- The log line names the message and the order; `null` and a missing property
give `(missing)`. -/
def logDeliveryResult (messageId orderId : Option Json) : App Unit :=
  if (messageId.getD .null).convertible && (orderId.getD .null).convertible then pure ()
  else throw (.typeError "Cannot convert object to primitive value")

def ack : App Unit := await (.settle .ack)

def publishFailed (queue : String) : App Unit :=
  throw (.error ("Failed to publish message to " ++ queue))

def isoString (ms : Nat) : App String :=
  match toISOString ms with
  | none => throw (.rangeError "Invalid time value")
  | some s => pure s

section

variable (config : WorkerConfig) (describe : Thrown → String)
  (processOrderMessage : Json.Fields → App ProcessOrderMessageResult)

def deadLetterInvalid (raw : List UInt8) : App Unit := do
  let published ← publishToQueue AppState.dlqQueue
    (.obj [("reason", .str "invalid_json"), ("raw", .str (base64 raw))])
    { messageId := none, correlationId := none, timestamp := none, expiration := none }
  if ¬ published then publishFailed AppState.dlqQueue
  else do
    logDeliveryResult (some (.str "(invalid_json)")) (some (.str "(invalid_json)"))
    ack

/-- The catch clause on the last attempt. -/
def deadLetter (payload : Json) (attempt : Nat) (errorReason : String) : App Unit := do
  let now ← await .dateNow
  let failedAt ← isoString now
  let published ← publishToQueue AppState.dlqQueue
    (.obj (Json.setField "errorReason" (.str errorReason) (Json.setField "failedAt" (.str failedAt)
      (Json.setField "attempt" (.num attempt) payload.spread))))
    { messageId := payload.get "messageId", correlationId := payload.get "correlationId"
      timestamp := none, expiration := none }
  if ¬ published then publishFailed AppState.dlqQueue
  else do
    logDeliveryResult (payload.get "messageId") (payload.get "orderId")
    ack

/-- The catch clause before the last attempt. -/
def retryLater (payload : Json) (attempt : Nat) (errorReason : String) : App Unit := do
  let nextAttempt := attempt + 1
  let delayMs := computeRetryDelayMs config nextAttempt
  let now ← await .dateNow
  let retryAt ← isoString (now + delayMs)
  let published ← publishToQueue AppState.retryQueue
    (.obj (Json.setField "errorReason" (.str errorReason) (Json.setField "retryAt" (.str retryAt)
      (Json.setField "attempt" (.num nextAttempt) payload.spread))))
    { messageId := payload.get "messageId", correlationId := payload.get "correlationId"
      timestamp := none, expiration := some (toString delayMs) }
  if ¬ published then publishFailed AppState.retryQueue
  else do
    logDeliveryResult (payload.get "messageId") (payload.get "orderId")
    ack

def handleMessage : Content → App Unit
  | .invalid raw => deadLetterInvalid raw
  | .json .null => throw (.typeError "Cannot read properties of null (reading 'attempt')")
  | .json payload => do
    let attempt := attemptOf payload
    try
      let _ ← processOrderMessage (Json.setField "attempt" (.num attempt) payload.spread)
      logDeliveryResult (payload.get "messageId") (payload.get "orderId")
      ack
    catch error =>
      let errorReason := getShortErrorReason describe error
      if config.maxAttempts - 1 ≤ attempt then deadLetter payload attempt errorReason
      else retryLater config payload attempt errorReason

/-- The consumer of `RabbitmqService.consume`. -/
def onMessage (message : Content) : App Unit := do
  try
    handleMessage config describe processOrderMessage message
  catch _ =>
    await (.settle (.nack true))

end

end Ecomm
