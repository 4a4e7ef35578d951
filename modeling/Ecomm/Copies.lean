import Ecomm.HandlerSpec
import Ecomm.Redelivery

/-! Whether a delivery that goes back to its queue has left a copy of the
message behind. -/

namespace Ecomm

open Concurrent Prog

/-- What processing a message may await: it settles nothing and sends nothing. -/
def Internal : AppOp → Prop
  | .sql _ | .dateNow | .publishStatusChanged _ => True
  | _ => False

structure Processor where
  process : Json.Fields → App ProcessOrderMessageResult
  internal : ∀ message, (process message).Awaits Internal

section Orders

theorem internal_processOrderMessage (message : Json.Fields) :
    (processOrderMessage message).Awaits Internal := by
  have hbody : (processInTransaction message).Awaits Internal :=
    awaits_processInTransaction (fun _ _ _ _ => trivial) (fun _ => trivial) (fun _ => trivial)
      (fun _ _ => trivial) trivial message
  refine (awaits_transaction trivial trivial trivial hbody).bind ?_
  intro result
  cases result with
  | deduplicated => trivial
  | unchanged id order => trivial
  | statusChanged id order =>
    refine (awaits_await trivial).bind (fun ts => ?_)
    exact (awaits_await trivial).bind (fun _ => trivial)

def ordersProcessor : Processor := ⟨processOrderMessage, internal_processOrderMessage⟩

end Orders

structure Untouched (s u : AppState) : Prop where
  published : u.published = s.published
  settled : u.settled = s.settled
  queue : u.queue = s.queue
  unacked : u.unacked = s.unacked
  channelReady : u.channelReady = s.channelReady

theorem exec_untouched {s t u : AppState} {i : Nat} {ch : AppChoice} {o : AppOp}
    {r : Except Thrown o.Ans} (hs : Untouched s t) (ho : Internal o)
    (h : app.exec t i ch o = some (r, u)) : Untouched s u := by
  cases o with
  | sql q =>
    obtain ⟨_, _, _, _, rfl⟩ := AppState.exec_sql h
    exact ⟨hs.published, hs.settled, hs.queue, hs.unacked, hs.channelReady⟩
  | dateNow | publishStatusChanged _ =>
    obtain ⟨_, rfl⟩ := Prod.mk.inj (Option.some.inj h)
    exact ⟨hs.published, hs.settled, hs.queue, hs.unacked, hs.channelReady⟩
  | channelReady | sendToQueue _ | settle _ | randomUUID => exact ho.elim

theorem ProcessedAs.untouched {p : Processor} {i : Nat} {s u : AppState} {first : List AppChoice}
    {outcome : Except Thrown ProcessOrderMessageResult} {body : Content}
    (h : ProcessedAs p.process i s first outcome u body) : Untouched s u := by
  have hs : Untouched s s := ⟨rfl, rfl, rfl, rfl, rfl⟩
  cases body with
  | invalid raw =>
    obtain ⟨_, rfl⟩ := h
    exact hs
  | json payload =>
    cases payload with
    | null =>
      obtain ⟨_, rfl⟩ := h
      exact hs
    | bool _ | num _ | overflow | str _ | arr _ | obj _ =>
      exact eval_keeps (fun _ _ _ _ _ hs ho he => exec_untouched hs ho he) (p.internal _) hs h

theorem Delivered.records {i : Nat} {s t : AppState} {after : Option Published × Settlement}
    (h : Delivered i s after t) :
    t.published = s.published ++ after.1.toList.map (fun copy => (i, copy)) ∧
      t.settled = s.settled ++ [(i, after.2)] := by
  obtain ⟨reads, rfl⟩ := h
  cases after.1 with
  | none => exact ⟨by simp, AppState.settle_settled _ _ _⟩
  | some copy => exact ⟨by simp [AppState.handOver, AppState.enqueue], AppState.settle_settled _ _ _⟩

/-- The log line about the delivery can be written. -/
def Content.loggable : Content → Bool
  | .invalid _ => true
  | .json payload => payload.loggable

def stampTime (config : WorkerConfig) (now attempt : Nat) : Nat :=
  if config.maxAttempts - 1 ≤ attempt then now
  else now + computeRetryDelayMs config (attempt + 1)

/-- The worker makes a copy of the message: it cannot be parsed, or it cannot be
processed or logged and its time is a date. -/
def MakesCopy (config : WorkerConfig) (now : Nat)
    (outcome : Except Thrown ProcessOrderMessageResult) : Content → Prop
  | .invalid _ => True
  | .json .null => False
  | .json payload =>
    ((∃ e, outcome = .error e) ∨ payload.loggable = false) ∧
      (toISOString (stampTime config now (attemptOf payload))).isSome

/-- The copy is handed over, but the write buffer is full or the log line throws. -/
def Multiplies (config : WorkerConfig) (c : Surroundings)
    (outcome : Except Thrown ProcessOrderMessageResult) (body : Content) : Prop :=
  c.ready = true ∧ MakesCopy config c.now outcome body ∧
    (c.send = .buffered ∨ c.send = .accepted ∧ body.loggable = false)

section Spec

variable {config : WorkerConfig} {describe : Thrown → String} {c : Surroundings}
  {outcome : Except Thrown ProcessOrderMessageResult}

theorem afterPublish_requeues (copy : Published) (loggable : Bool) :
    ((afterPublish c copy loggable).2 = .nack true ∧ (afterPublish c copy loggable).1 ≠ none) ↔
      c.ready = true ∧ (c.send = .buffered ∨ c.send = .accepted ∧ loggable = false) := by
  cases hready : c.ready with
  | false => simp [afterPublish, hready]
  | true => cases hsend : c.send <;> cases loggable <;> simp [afterPublish, hready, hsend]

theorem failureReason_none {payload : Json} :
    failureReason describe outcome payload = none ↔
      ¬ ((∃ e, outcome = .error e) ∨ payload.loggable = false) := by
  cases outcome with
  | error e => simp [failureReason]
  | ok result => cases h : payload.loggable <;> simp [failureReason, h]

theorem failureCopy_isSome (config : WorkerConfig) (c : Surroundings) (payload : Json)
    (reason : String) :
    (failureCopy config c payload reason).isSome =
      (toISOString (stampTime config c.now (attemptOf payload))).isSome := by
  rw [failureCopy, stampTime]
  split
  · rw [Option.isSome_map]
  · rw [Option.isSome_map]

theorem afterDelivery_requeues (body : Content) :
    ((afterDelivery config describe c outcome body).2 = .nack true ∧
        (afterDelivery config describe c outcome body).1 ≠ none) ↔
      Multiplies config c outcome body := by
  cases body with
  | invalid raw =>
    rw [afterDelivery, afterPublish_requeues, Multiplies]
    simp [MakesCopy, Content.loggable]
  | json payload =>
    by_cases hnull : payload = .null
    · subst hnull
      simp [afterDelivery, Multiplies, MakesCopy]
    · have hmakes : MakesCopy config c.now outcome (.json payload) ↔
          ((∃ e, outcome = .error e) ∨ payload.loggable = false) ∧
            (toISOString (stampTime config c.now (attemptOf payload))).isSome := by
        cases payload with
        | null => exact absurd rfl hnull
        | bool _ | num _ | overflow | str _ | arr _ | obj _ => exact Iff.rfl
      rw [afterDelivery_payload hnull, Multiplies, hmakes]
      cases hreason : failureReason describe outcome payload with
      | none => simp [failureReason_none.mp hreason]
      | some reason =>
        have hfails : (∃ e, outcome = .error e) ∨ payload.loggable = false := by
          by_contra hno
          rw [failureReason_none.mpr hno] at hreason
          cases hreason
        rw [← failureCopy_isSome config c payload reason]
        dsimp only
        cases hcopy : failureCopy config c payload reason with
        | none => simp
        | some copy =>
          dsimp only
          rw [afterPublish_requeues]
          simp only [hfails, Content.loggable, Option.isSome_some, true_and]

end Spec

/-- A delivery that goes back to its queue has left no copy, exactly if no copy
met a full write buffer or a log line that throws. -/
theorem requeued_uncopied_iff (p : Processor) {config : WorkerConfig}
    {describe : Thrown → String} {c : Surroundings} {i : Nat} {s u t : AppState} {body : Content}
    {first rest : List AppChoice} {outcome : Except Thrown ProcessOrderMessageResult}
    {r : Except Thrown Unit} (hprocessed : ProcessedAs p.process i s first outcome u body)
    (hready : s.channelReady = c.ready) (hrest : ∀ ch ∈ rest, c.Gives ch)
    (h : (onMessage config describe p.process body).eval app i s (first ++ rest) = some (r, t)) :
    (t.settled = s.settled ++ [(i, .nack true)] → t.published = s.published) ↔
      ¬ Multiplies config c outcome body := by
  have huntouched := hprocessed.untouched
  obtain ⟨_, hdelivered⟩ :=
    onMessage_delivered hprocessed (huntouched.channelReady.trans hready) hrest h
  obtain ⟨hpublished, hsettled⟩ := hdelivered.records
  rw [hpublished, hsettled, huntouched.published, huntouched.settled, ← afterDelivery_requeues]
  cases (afterDelivery config describe c outcome body).1 <;> simp

def strayMessage : Json :=
  .obj [("messageId", .str (uuidOut 3)), ("orderId", .str (uuidOut 8))]

def holding (body : Content) : AppState :=
  { serving (penOrdered .pending) with unacked := Function.update (fun _ => none) 0 (some body) }

def penWorker : WorkerConfig := ⟨3, 1000, 30000, by decide, by decide⟩

/-- What the handler of the stray message meets at its last four steps. -/
def sending (send : SendResult) : List AppChoice := List.replicate 4 { tick 0 with send }

theorem requeued_uncopied_stray :
    ∃ outcome u r t, ProcessedAs ordersProcessor.process 0 (holding (.json strayMessage))
        (List.replicate 3 (tick 0)) outcome u (.json strayMessage) ∧
      (onMessage penWorker (fun _ => "") ordersProcessor.process (.json strayMessage)).eval app 0
        (holding (.json strayMessage)) (List.replicate 3 (tick 0) ++ sending .accepted) =
          some (r, t) ∧
      ((t.settled = [(0, .nack true)] → t.published = []) ↔
        ¬ Multiplies penWorker ⟨true, .accepted, 5⟩ outcome (.json strayMessage)) := by
  have hprocess : ((ordersProcessor.process
      (Json.setField "attempt" (.num (attemptOf strayMessage)) strayMessage.spread)).eval app 0
        (holding (.json strayMessage)) (List.replicate 3 (tick 0))).isSome = true := by
    decide +kernel
  have hrun : ((onMessage penWorker (fun _ => "") ordersProcessor.process
      (.json strayMessage)).eval app 0 (holding (.json strayMessage))
        (List.replicate 3 (tick 0) ++ sending .accepted)).isSome = true := by decide +kernel
  obtain ⟨⟨outcome, u⟩, hprocess⟩ := Option.isSome_iff_exists.mp hprocess
  obtain ⟨⟨r, t⟩, hrun⟩ := Option.isSome_iff_exists.mp hrun
  have hprocessed : ProcessedAs ordersProcessor.process 0 (holding (.json strayMessage))
      (List.replicate 3 (tick 0)) outcome u (.json strayMessage) := hprocess
  have hgives : ∀ ch ∈ sending .accepted, Surroundings.Gives ⟨true, .accepted, 5⟩ ch := by
    intro ch hch
    obtain rfl := List.eq_of_mem_replicate hch
    exact ⟨rfl, rfl⟩
  exact ⟨outcome, u, r, t, hprocessed, hrun,
    requeued_uncopied_iff ordersProcessor hprocessed rfl hgives hrun⟩

/-- A full write buffer: the retry copy is with the broker, and the message goes
back to its queue. -/
theorem requeued_copies :
    ¬ ∀ (p : Processor) (config : WorkerConfig) (describe : Thrown → String) (i : Nat)
      (s t : AppState) (body : Content) (chs : List AppChoice) (r : Except Thrown Unit),
      (∀ ch ∈ chs, ch.send ≠ .refused) →
      (onMessage config describe p.process body).eval app i s chs = some (r, t) →
      t.settled = s.settled ++ [(i, .nack true)] → t.published = s.published := by
  intro h
  have hrun : ((onMessage penWorker (fun _ => "") ordersProcessor.process
      (.json strayMessage)).eval app 0 (holding (.json strayMessage))
        (List.replicate 3 (tick 0) ++ sending .buffered)).map
          (fun e => (e.2.settled, e.2.published.length)) = some ([(0, .nack true)], 1) := by
    decide +kernel
  obtain ⟨⟨r, t⟩, hrun, hafter⟩ := Option.map_eq_some_iff.mp hrun
  obtain ⟨hsettled, hpublished⟩ := Prod.mk.inj hafter
  have hnone := h ordersProcessor _ _ 0 _ t _ _ r (by decide) hrun hsettled
  rw [hnone] at hpublished
  cases hpublished

end Ecomm
