import Ecomm.Lib.Context
import Ecomm.Awaited
import Ecomm.OrdersWorker

/-! What one delivery ends with: the copy of the message that the worker hands
over, and how it settles the delivery. -/

namespace Ecomm

open Concurrent Prog

structure Surroundings where
  ready : Bool
  send : SendResult
  now : Nat

def Surroundings.Gives (c : Surroundings) (ch : AppChoice) : Prop :=
  ch.send = c.send ∧ ch.now = c.now

def invalidCopy (raw : List UInt8) : Published where
  queue := AppState.dlqQueue
  payload := .obj [("reason", .str "invalid_json"), ("raw", .str (base64 raw))]
  options := { messageId := none, correlationId := none, timestamp := none, expiration := none }

def deadLetterCopy (payload : Json) (attempt : Nat) (errorReason failedAt : String) : Published where
  queue := AppState.dlqQueue
  payload := .obj (Json.setField "errorReason" (.str errorReason)
    (Json.setField "failedAt" (.str failedAt)
      (Json.setField "attempt" (.num attempt) payload.spread)))
  options := { messageId := payload.get "messageId", correlationId := payload.get "correlationId"
               timestamp := none, expiration := none }

def retryCopy (payload : Json) (nextAttempt delayMs : Nat) (errorReason retryAt : String) :
    Published where
  queue := AppState.retryQueue
  payload := .obj (Json.setField "errorReason" (.str errorReason)
    (Json.setField "retryAt" (.str retryAt)
      (Json.setField "attempt" (.num nextAttempt) payload.spread)))
  options := { messageId := payload.get "messageId", correlationId := payload.get "correlationId"
               timestamp := none, expiration := some (toString delayMs) }

/-- The log line about the message can be written. -/
def Json.loggable (payload : Json) : Bool :=
  ((payload.get "messageId").getD .null).convertible &&
    ((payload.get "orderId").getD .null).convertible

def afterPublish (c : Surroundings) (copy : Published) (loggable : Bool) :
    Option Published × Settlement :=
  if c.ready then
    match c.send with
    | .accepted => (some copy, if loggable then .ack else .nack true)
    | .buffered => (some copy, .nack true)
    | .refused | .closed => (none, .nack true)
  else (none, .nack true)

section

variable (config : WorkerConfig) (describe : Thrown → String) (c : Surroundings)

/-- The copy that is made of a message whose processing has failed, unless its
time is no date. -/
def failureCopy (payload : Json) (errorReason : String) : Option Published :=
  let attempt := attemptOf payload
  if config.maxAttempts - 1 ≤ attempt then
    (toISOString c.now).map (deadLetterCopy payload attempt errorReason)
  else
    let delayMs := computeRetryDelayMs config (attempt + 1)
    (toISOString (c.now + delayMs)).map (retryCopy payload (attempt + 1) delayMs errorReason)

/-- The reason of a failure, if processing or the log line after it fails. -/
def failureReason (outcome : Except Thrown ProcessOrderMessageResult) (payload : Json) :
    Option String :=
  match outcome with
  | .error e => some (getShortErrorReason describe e)
  | .ok _ =>
    if payload.loggable then none
    else some (getShortErrorReason describe
      (.typeError "Cannot convert object to primitive value"))

def afterDelivery (outcome : Except Thrown ProcessOrderMessageResult) :
    Content → Option Published × Settlement
  | .invalid raw => afterPublish c (invalidCopy raw) true
  | .json .null => (none, .nack true)
  | .json payload =>
    match failureReason describe outcome payload with
    | none => (none, .ack)
    | some reason =>
      match failureCopy config c payload reason with
      | none => (none, .nack true)
      | some copy => afterPublish c copy payload.loggable

end

/-- The state after a delivery, but for the record of clock reads. -/
def Delivered (i : Nat) (s : AppState) (after : Option Published × Settlement) (t : AppState) :
    Prop :=
  ∃ reads, t = { (after.1.elim s (s.handOver i)).settle i after.2 with clockReads := reads }

section Spec

variable {c : Surroundings} {i : Nat} {s : AppState}

theorem settle_clockReads_with (s : AppState) (reads : List Nat) (how : Settlement) :
    ({ s with clockReads := reads } : AppState).settle i how =
      { s.settle i how with clockReads := reads } := by
  unfold AppState.settle
  dsimp only
  split
  · rfl
  · split <;> rfl

theorem Delivered.of_read {reads : List Nat} {after : Option Published × Settlement} {t : AppState}
    (h : Delivered i { s with clockReads := reads } after t) : Delivered i s after t := by
  obtain ⟨reads', rfl⟩ := h
  refine ⟨reads', ?_⟩
  cases after.1 with
  | none => simp only [Option.elim_none, settle_clockReads_with]
  | some copy =>
    exact congrArg (fun u : AppState => { u with clockReads := reads' })
      (settle_clockReads_with (s.handOver i copy) reads after.2)

theorem delivered_settle (after : Option Published × Settlement) :
    Delivered i s after ((after.1.elim s (s.handOver i)).settle i after.2) :=
  ⟨_, rfl⟩

theorem wp_settle (how : Settlement) {Q : Unit → AppState → Prop} {E : Thrown → AppState → Prop}
    (hQ : Q () (s.settle i how)) :
    (await (.settle how) : App Unit).wp (aloneOn app c.Gives i) Q E s :=
  wp_determined (fun _ _ => rfl) hQ

def Requeues (i : Nat) (s : AppState) (after : Option Published × Settlement) (t : AppState) :
    Prop :=
  Delivered i s after (t.settle i (.nack true))

/-- The tail of a publish: without it, or if the log line throws, the delivery
is requeued. -/
theorem wp_afterPublish (hready : s.channelReady = c.ready) (copy : Published)
    {messageId orderId : Option Json} {loggable : Bool}
    (hloggable : loggable = ((messageId.getD .null).convertible &&
      (orderId.getD .null).convertible)) :
    (do
      let published ← publishToQueue copy.queue copy.payload copy.options
      if ¬ published then publishFailed copy.queue
      else do
        logDeliveryResult messageId orderId
        ack : App Unit).wp (aloneOn app c.Gives i)
      (fun _ => Delivered i s (afterPublish c copy loggable))
      (fun _ => Requeues i s (afterPublish c copy loggable)) s := by
  have hanswer : ∀ ch : AppChoice, c.Gives ch →
      app.exec s i ch .channelReady = some (.ok c.ready, s) := by
    intro ch _
    rw [← hready]
    rfl
  refine (wp_bind _ _ _ _ _).mpr ((wp_bind _ _ _ _ _).mpr (wp_determined hanswer ?_))
  cases hc : c.ready with
  | false =>
    rw [afterPublish, hc]
    exact delivered_settle (none, .nack true)
  | true =>
    have hsend : ∀ ch : AppChoice, c.Gives ch → ch.send = c.send := fun ch hch => hch.1
    cases hcase : c.send with
    | accepted =>
      refine wp_determined (a := true) (t := s.handOver i copy) ?_ ?_
      · intro ch hch
        simp only [AppState.exec, hsend ch hch, hcase]
      · rw [afterPublish, hc, hcase]
        refine (wp_bind _ _ _ _ _).mpr ?_
        rw [logDeliveryResult, ← hloggable]
        cases loggable with
        | true => exact wp_settle .ack (delivered_settle (some copy, .ack))
        | false => exact delivered_settle (some copy, .nack true)
    | buffered =>
      refine wp_determined (a := false) (t := s.handOver i copy) ?_ ?_
      · intro ch hch
        simp only [AppState.exec, hsend ch hch, hcase]
      · rw [afterPublish, hc, hcase]
        exact delivered_settle (some copy, .nack true)
    | refused =>
      refine wp_determined (a := false) (t := s) ?_ ?_
      · intro ch hch
        simp only [AppState.exec, hsend ch hch, hcase]
      · rw [afterPublish, hc, hcase]
        exact delivered_settle (none, .nack true)
    | closed =>
      refine (wp_await _ _ _ _).mpr ⟨trivial, ?_, ?_⟩
      · rintro a t ⟨ch, hch, he⟩
        simp only [AppState.exec, hsend ch hch, hcase] at he
        cases he
      · rintro e t ⟨ch, hch, he⟩
        simp only [AppState.exec, hsend ch hch, hcase] at he
        obtain ⟨_, rfl⟩ := Prod.mk.inj (Option.some.inj he)
        rw [afterPublish, hc, hcase]
        exact delivered_settle (none, .nack true)

theorem wp_stampedPublish (hready : s.channelReady = c.ready) (ms : Nat → Nat)
    {copy : String → Published} {messageId orderId : Option Json} {loggable : Bool}
    (hloggable : loggable = ((messageId.getD .null).convertible &&
      (orderId.getD .null).convertible)) {after : Option Published × Settlement}
    (hafter : after = (match (toISOString (ms c.now)).map copy with
      | none => (none, .nack true)
      | some copy => afterPublish c copy loggable)) :
    (do
      let now ← await .dateNow
      let stamp ← isoString (ms now)
      let published ← publishToQueue (copy stamp).queue (copy stamp).payload (copy stamp).options
      if ¬ published then publishFailed (copy stamp).queue
      else do
        logDeliveryResult messageId orderId
        ack : App Unit).wp (aloneOn app c.Gives i)
      (fun _ => Delivered i s after) (fun _ => Requeues i s after) s := by
  have hnow : ∀ ch : AppChoice, c.Gives ch → app.exec s i ch .dateNow =
      some (.ok c.now, { s with clockReads := s.clockReads ++ [i] }) := by
    intro ch hch
    rw [← hch.2]
    rfl
  refine (wp_bind _ _ _ _ _).mpr (wp_determined hnow ((wp_bind _ _ _ _ _).mpr ?_))
  rw [isoString]
  cases hstamp : toISOString (ms c.now) with
  | none =>
    rw [hstamp] at hafter
    rw [hafter]
    exact (delivered_settle (none, .nack true)).of_read
  | some stamp =>
    rw [hstamp] at hafter
    rw [hafter]
    simp only [pure_eq, wp_ret]
    have hread : ({ s with clockReads := s.clockReads ++ [i] } : AppState).channelReady = c.ready :=
      hready
    exact wp_mono (wp_afterPublish (i := i) hread (copy stamp) hloggable)
      (fun _ _ => Delivered.of_read) (fun _ _ => Delivered.of_read)

theorem wp_failed {config : WorkerConfig} (hready : s.channelReady = c.ready) (payload : Json)
    (reason : String) {after : Option Published × Settlement}
    (hafter : after = (match failureCopy config c payload reason with
      | none => (none, .nack true)
      | some copy => afterPublish c copy payload.loggable)) :
    (if config.maxAttempts - 1 ≤ attemptOf payload then
        deadLetter payload (attemptOf payload) reason
      else retryLater config payload (attemptOf payload) reason : App Unit).wp
      (aloneOn app c.Gives i) (fun _ => Delivered i s after) (fun _ => Requeues i s after) s := by
  rw [failureCopy] at hafter
  split
  · next hlast =>
    rw [if_pos hlast] at hafter
    exact wp_stampedPublish hready id rfl hafter
  · next hlast =>
    rw [if_neg hlast] at hafter
    exact wp_stampedPublish hready
      (· + computeRetryDelayMs config (attemptOf payload + 1)) rfl hafter

theorem handleMessage_payload {config : WorkerConfig} {describe : Thrown → String}
    {process : Json.Fields → App ProcessOrderMessageResult} {payload : Json}
    (h : payload ≠ .null) :
    handleMessage config describe process (.json payload) = (do
      let attempt := attemptOf payload
      try
        let _ ← process (Json.setField "attempt" (.num attempt) payload.spread)
        logDeliveryResult (payload.get "messageId") (payload.get "orderId")
        ack
      catch error =>
        let errorReason := getShortErrorReason describe error
        if config.maxAttempts - 1 ≤ attempt then deadLetter payload attempt errorReason
        else retryLater config payload attempt errorReason) := by
  cases payload with
  | null => exact absurd rfl h
  | bool _ | num _ | overflow | str _ | arr _ | obj _ => rfl

theorem afterDelivery_payload {config : WorkerConfig} {describe : Thrown → String}
    {outcome : Except Thrown ProcessOrderMessageResult} {payload : Json} (h : payload ≠ .null) :
    afterDelivery config describe c outcome (.json payload) =
      (match failureReason describe outcome payload with
      | none => (none, .ack)
      | some reason =>
        match failureCopy config c payload reason with
        | none => (none, .nack true)
        | some copy => afterPublish c copy payload.loggable) := by
  cases payload with
  | null => exact absurd rfl h
  | bool _ | num _ | overflow | str _ | arr _ | obj _ => rfl

theorem wp_handleMessage_alone {config : WorkerConfig} {describe : Thrown → String}
    (hready : s.channelReady = c.ready) (outcome : Except Thrown ProcessOrderMessageResult)
    (body : Content) :
    (handleMessage config describe (fun _ => ofResult outcome) body).wp (aloneOn app c.Gives i)
      (fun _ => Delivered i s (afterDelivery config describe c outcome body))
      (fun _ => Requeues i s (afterDelivery config describe c outcome body)) s := by
  cases body with
  | invalid raw => exact wp_afterPublish hready (invalidCopy raw) rfl
  | json payload =>
    by_cases hnull : payload = .null
    · subst hnull
      exact delivered_settle (none, .nack true)
    · rw [handleMessage_payload hnull, afterDelivery_payload hnull]
      refine (wp_tryCatch _ _ _ _ _).mpr ((wp_bind _ _ _ _ _).mpr ?_)
      cases outcome with
      | error e => exact wp_failed hready payload (getShortErrorReason describe e) rfl
      | ok result =>
        refine (wp_bind _ _ _ _ _).mpr ?_
        cases hlog : payload.loggable with
        | true =>
          have hwrites : logDeliveryResult (payload.get "messageId") (payload.get "orderId") =
              pure () := by
            rw [Json.loggable] at hlog
            rw [logDeliveryResult, if_pos hlog]
          rw [hwrites, failureReason, if_pos hlog]
          exact wp_settle .ack (delivered_settle (none, .ack))
        | false =>
          have hthrows : logDeliveryResult (payload.get "messageId") (payload.get "orderId") =
              throw (.typeError "Cannot convert object to primitive value") := by
            rw [Json.loggable] at hlog
            rw [logDeliveryResult, hlog]
            rfl
          rw [hthrows, failureReason, hlog]
          exact wp_failed hready payload _ (by rw [hlog]; rfl)

/-- Processing ends with `outcome`, if the message is processed at all. -/
def ProcessedAs (process : Json.Fields → App ProcessOrderMessageResult) (i : Nat) (s : AppState)
    (first : List AppChoice) (outcome : Except Thrown ProcessOrderMessageResult) (u : AppState) :
    Content → Prop
  | .invalid _ | .json .null => first = [] ∧ u = s
  | .json payload =>
    (process (Json.setField "attempt" (.num (attemptOf payload)) payload.spread)).eval app i s
      first = some (outcome, u)

/-- What becomes of a delivery depends on the outcome of processing and on the
surroundings. -/
theorem onMessage_delivered {config : WorkerConfig} {describe : Thrown → String}
    {process : Json.Fields → App ProcessOrderMessageResult} {body : Content}
    {first rest : List AppChoice} {outcome : Except Thrown ProcessOrderMessageResult}
    {u t : AppState} {r : Except Thrown Unit} (hp : ProcessedAs process i s first outcome u body)
    (hready : u.channelReady = c.ready) (hrest : ∀ ch ∈ rest, c.Gives ch)
    (h : (onMessage config describe process body).eval app i s (first ++ rest) = some (r, t)) :
    r = .ok () ∧ Delivered i u (afterDelivery config describe c outcome body) t := by
  have hsame : (onMessage config describe (fun _ => ofResult outcome) body).eval app i u rest =
      some (r, t) := by
    cases body with
    | invalid raw =>
      obtain ⟨rfl, rfl⟩ := hp
      exact h
    | json payload =>
      by_cases hnull : payload = .null
      · subst hnull
        obtain ⟨rfl, rfl⟩ := hp
        exact h
      · have hp : (process (Json.setField "attempt" (.num (attemptOf payload))
            payload.spread)).eval app i s first = some (outcome, u) := by
          cases payload with
          | null => exact absurd rfl hnull
          | bool _ | num _ | overflow | str _ | arr _ | obj _ => exact hp
        rw [onMessage, handleMessage_payload hnull] at h ⊢
        rw [← h]
        exact (eval_context (F := fun p => tryCatch (tryCatch (p >>= fun _ => do
            logDeliveryResult (payload.get "messageId") (payload.get "orderId")
            ack) (fun error =>
              if config.maxAttempts - 1 ≤ attemptOf payload then
                deadLetter payload (attemptOf payload) (getShortErrorReason describe error)
              else retryLater config payload (attemptOf payload)
                (getShortErrorReason describe error)))
            (fun _ => await (.settle (.nack true)))) (fun _ _ => rfl) rest hp).symm
  have hwp : (onMessage config describe (fun _ => ofResult outcome) body).wp
      (aloneOn app c.Gives i)
      (fun _ => Delivered i u (afterDelivery config describe c outcome body))
      (fun _ _ => False) u := by
    refine (wp_tryCatch _ _ _ _ _).mpr
      (wp_mono (wp_handleMessage_alone hready outcome body) (fun _ _ h => h) ?_)
    exact fun _ t ht => wp_settle (.nack true) ht
  have hout := eval_outcome_on hwp hsame hrest
  cases r with
  | ok result => exact ⟨rfl, hout⟩
  | error e => exact hout.elim

end Spec

end Ecomm
