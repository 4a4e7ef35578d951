import Ecomm.Copies

/-! The deliveries that one message gives rise to when every publish succeeds,
and when they come to an end. -/

namespace Ecomm

open Concurrent Prog

def receiving (body : Content) : AppState :=
  { serving (fun _ => ∅) with unacked := Function.update (fun _ => none) 0 (some body) }

/-- One delivery, given the result of `processOrderMessage` and the time. -/
def handleDelivery (config : WorkerConfig) (describe : Thrown → String)
    (result : Except Thrown ProcessOrderMessageResult) (now : Nat) (body : Content) :
    Option AppState :=
  (evalOn app 0 ⟨⟨false, 0, 0⟩, .accepted, 0, now⟩ (receiving body)
    (onMessage config describe (fun _ => ofResult result) body)).map (·.2)

structure Queues (t : AppState) (process retry dlq : List Content) : Prop where
  process : t.queue AppState.processQueue = process
  retry : t.queue AppState.retryQueue = retry
  dlq : t.queue AppState.dlqQueue = dlq

def keptFields : List String := ["messageId", "orderId", "createdAt", "correlationId"]

def KeepsFields (origin : Content) (copy : Json) : Prop :=
  ∀ fields, origin = .json (.obj fields) → ∀ f ∈ keptFields, copy.get f = (Json.obj fields).get f

def Content.attempt : Content → Nat
  | .invalid _ => 0
  | .json payload => attemptOf payload

section

variable (config : WorkerConfig) (describe : Thrown → String)
  (results : Nat → Except Thrown ProcessOrderMessageResult) (clock : Nat → Nat)

/-- Delivery `k` and at most `n` in all are needed until no copy of the message is
left, or one copy on the dead letter queue. -/
inductive LeavesWithin (origin : Content) : Nat → Nat → Content → Prop where
  | success {k n : Nat} {body : Content} {t : AppState}
      (handled : handleDelivery config describe (results k) (clock k) body = some t)
      (settled : t.settled = [(0, .ack)]) (queues : Queues t [] [] []) :
      LeavesWithin origin k (n + 1) body
  | deadLettered {k n : Nat} {body : Content} {t : AppState} {copy : Json}
      (handled : handleDelivery config describe (results k) (clock k) body = some t)
      (settled : t.settled = [(0, .ack)]) (queues : Queues t [] [] [.json copy])
      (keeps : KeepsFields origin copy)
      (last : ∀ payload, body = .json payload → config.maxAttempts - 1 ≤ attemptOf copy) :
      LeavesWithin origin k (n + 1) body
  | retried {k n : Nat} {body : Content} {t : AppState} {copy : Json}
      (handled : handleDelivery config describe (results k) (clock k) body = some t)
      (settled : t.settled = [(0, .ack)]) (queues : Queues t [] [.json copy] [])
      (keeps : KeepsFields origin copy) (counts : attemptOf copy = body.attempt + 1)
      (next : LeavesWithin origin (k + 1) n (.json copy)) :
      LeavesWithin origin k (n + 1) body

/-- As long as processing fails, from delivery `k` on, the times of the copies are
dates. -/
def DatesValid (k attempt : Nat) : Prop :=
  ∀ j ≤ config.maxAttempts - 1 - attempt, (∀ l ≤ j, ∃ e, results (k + l) = .error e) →
    (toISOString (stampTime config (clock (k + j)) (attempt + j))).isSome

/-- `JSON.stringify` keeps the fields of an object. -/
def FieldsSurvive (origin : Content) : Prop :=
  ∀ fields, origin = .json (.obj fields) → ∀ f ∈ keptFields,
    ((Json.obj fields).get f).map Json.stringified = (Json.obj fields).get f

/-- The worker can do its work on the message. -/
def Manageable : Content → Prop
  | .invalid _ => True
  | .json .null => False
  | .json payload => payload.loggable = true ∧
      ((∃ e, results 0 = .error e) → FieldsSurvive (.json payload)) ∧
      DatesValid config results clock 0 (attemptOf payload)

end

/-! A value and what parsing its text gives back are converted to text alike. -/

mutual

theorem Json.convertible_stringified : ∀ v : Json, v.stringified.convertible = v.convertible
  | .null | .bool _ | .num _ | .overflow | .str _ => rfl
  | .arr xs => by
    rw [Json.stringified, Json.convertible, Json.convertible, Json.convertibleAll_stringified xs]
  | .obj fields => by
    rw [Json.stringified, Json.convertible, Json.convertible, Json.lookup_stringifiedFields,
      Option.isNone_map]

theorem Json.convertibleAll_stringified : ∀ xs : List Json,
    Json.convertibleAll (Json.stringifiedAll xs) = Json.convertibleAll xs
  | [] => rfl
  | x :: xs => by
    rw [Json.stringifiedAll, Json.convertibleAll, Json.convertibleAll,
      Json.convertible_stringified x, Json.convertibleAll_stringified xs]

end

/-! What a failed delivery leaves behind. -/

structure CopyOf (payload : Json) (attempt : Nat) (copy : Json) : Prop where
  fields : ∀ f ∈ keptFields, copy.get f = (payload.get f).map Json.stringified
  attempt : attemptOf copy = attempt
  object : ∃ fields, copy = .obj fields

theorem copyOf_fields {payload : Json} {attempt : Nat} {stamp : String} (at_ reason : Json)
    (hstamp : stamp = "failedAt" ∨ stamp = "retryAt") :
    CopyOf payload attempt (Json.obj (Json.setField "errorReason" reason
      (Json.setField stamp at_ (Json.setField "attempt" (.num attempt)
        payload.spread)))).stringified := by
  have hne : ∀ f, f ∈ "attempt" :: keptFields → f ≠ "errorReason" ∧ f ≠ stamp := by
    rcases hstamp with rfl | rfl <;> decide
  constructor
  · intro f hf
    obtain ⟨hreason, hstamp⟩ := hne f (List.mem_cons_of_mem _ hf)
    have hattempt : f ≠ "attempt" := by
      rintro rfl
      revert hf
      decide
    have hindex : ∀ n : Nat, toString n ≠ f := by
      simp only [keptFields, List.mem_cons, List.not_mem_nil, or_false] at hf
      rcases hf with rfl | rfl | rfl | rfl
      · exact Json.index_ne (c := 'm') (by decide) (by decide)
      · exact Json.index_ne (c := 'o') (by decide) (by decide)
      · exact Json.index_ne (c := 'c') (by decide) (by decide)
      · exact Json.index_ne (c := 'c') (by decide) (by decide)
    rw [Json.stringified, Json.get, Json.lookup_stringifiedFields,
      Json.lookup_setField_other _ hreason, Json.lookup_setField_other _ hstamp,
      Json.lookup_setField_other _ hattempt, Json.lookup_spread hindex]
  · obtain ⟨hreason, hstamp⟩ := hne "attempt" List.mem_cons_self
    rw [attemptOf, Json.stringified, Json.get, Json.lookup_stringifiedFields,
      Json.lookup_setField_other _ hreason, Json.lookup_setField_other _ hstamp,
      Json.lookup_setField_self, Option.map_some, Json.stringified]
    simp
  · exact ⟨_, rfl⟩

theorem CopyOf.loggable {payload copy : Json} {attempt : Nat} (h : CopyOf payload attempt copy) :
    copy.loggable = payload.loggable := by
  have hconvertible : ∀ o : Option Json,
      ((o.map Json.stringified).getD .null).convertible = (o.getD .null).convertible := by
    intro o
    cases o with
    | none => rfl
    | some v => exact Json.convertible_stringified v
  rw [Json.loggable, Json.loggable, h.fields "messageId" (by decide),
    h.fields "orderId" (by decide), hconvertible, hconvertible]

theorem CopyOf.ne_null {payload copy : Json} {attempt : Nat} (h : CopyOf payload attempt copy) :
    copy ≠ .null := by
  obtain ⟨fields, rfl⟩ := h.object
  nofun

section Delivery

variable {config : WorkerConfig} {describe : Thrown → String}
  {result : Except Thrown ProcessOrderMessageResult} {now : Nat}

theorem failureCopy_spec {c : Surroundings} {payload : Json} {reason : String} {copy : Published}
    (h : failureCopy config c payload reason = some copy) :
    if config.maxAttempts - 1 ≤ attemptOf payload then
      copy.queue = AppState.dlqQueue ∧ CopyOf payload (attemptOf payload) copy.payload.stringified
    else copy.queue = AppState.retryQueue ∧
      CopyOf payload (attemptOf payload + 1) copy.payload.stringified := by
  rw [failureCopy] at h
  split at h
  · next hlast =>
    rw [if_pos hlast]
    obtain ⟨stamp, _, rfl⟩ := Option.map_eq_some_iff.mp h
    exact ⟨rfl, copyOf_fields _ _ (.inl rfl)⟩
  · next hlast =>
    rw [if_neg hlast]
    obtain ⟨stamp, _, rfl⟩ := Option.map_eq_some_iff.mp h
    exact ⟨rfl, copyOf_fields _ _ (.inr rfl)⟩

def Unblocked : AppOp → Prop
  | .sql _ => False
  | _ => True

theorem unblocked_handleMessage (body : Content) :
    (handleMessage config describe (fun _ => ofResult result) body).Awaits Unblocked := by
  cases body with
  | invalid raw => exact awaits_publishAndAck trivial trivial trivial _ _
  | json payload =>
    by_cases hnull : payload = .null
    · subst hnull
      trivial
    · rw [handleMessage_payload hnull]
      refine Awaits.tryCatch (Awaits.bind ?_ ?_) ?_
      · cases result <;> trivial
      · intro _
        refine Awaits.bind ?_ (fun _ => awaits_await trivial)
        rw [logDeliveryResult]
        split <;> trivial
      · intro error
        dsimp only
        split
        · exact awaits_stamped trivial id (fun _ => awaits_publishAndAck trivial trivial trivial _ _)
        · exact awaits_stamped trivial _ (fun _ => awaits_publishAndAck trivial trivial trivial _ _)

theorem exec_unblocked (ch : AppChoice) (s : AppState) (o : AppOp) (ho : Unblocked o) :
    (app.exec s 0 ch o).isSome := by
  cases o with
  | sql q => exact ho.elim
  | sendToQueue m =>
    change (AppState.exec s 0 ch (.sendToQueue m)).isSome
    rw [AppState.exec]
    split <;> rfl
  | channelReady | settle _ | publishStatusChanged _ | randomUUID | dateNow => rfl

theorem handleDelivery_spec (config : WorkerConfig) (describe : Thrown → String)
    (result : Except Thrown ProcessOrderMessageResult) (now : Nat) (body : Content) :
    ∃ t, handleDelivery config describe result now body = some t ∧
      Delivered 0 (receiving body)
        (afterDelivery config describe ⟨true, .accepted, now⟩ result body) t := by
  have hawaits : (onMessage config describe (fun _ => ofResult result) body).Awaits Unblocked :=
    Awaits.tryCatch (unblocked_handleMessage body) (fun _ => awaits_await trivial)
  let ch : AppChoice := ⟨⟨false, 0, 0⟩, .accepted, 0, now⟩
  have htotal : (evalOn app 0 ch (receiving body)
      (onMessage config describe (fun _ => ofResult result) body)).isSome :=
    evalOn_isSome (exec_unblocked ch) hawaits _
  obtain ⟨⟨r, t⟩, hrun⟩ := Option.isSome_iff_exists.mp htotal
  obtain ⟨n, heval⟩ := evalOn_eval hrun
  refine ⟨t, by rw [handleDelivery, hrun]; rfl, ?_⟩
  have hprocessed : ProcessedAs (fun _ => ofResult result) 0 (receiving body) [] result
      (receiving body) body := by
    have hresult : (ofResult result : App ProcessOrderMessageResult).eval app 0 (receiving body) [] =
        some (result, receiving body) := by
      cases result <;> rfl
    cases body with
    | invalid raw => exact ⟨rfl, rfl⟩
    | json payload =>
      cases payload with
      | null => exact ⟨rfl, rfl⟩
      | bool _ | num _ | overflow | str _ | arr _ | obj _ => exact hresult
  have hgives : ∀ ch' ∈ List.replicate n ch, Surroundings.Gives ⟨true, .accepted, now⟩ ch' := by
    intro ch' hch
    obtain rfl := List.eq_of_mem_replicate hch
    exact ⟨rfl, rfl⟩
  exact (onMessage_delivered hprocessed rfl hgives heval).2

theorem receiving_settle (body : Content) (copy : Option Published) {t : AppState}
    (h : Delivered 0 (receiving body) (copy, .ack) t) (q : String) :
    t.queue q = (copy.toList.filter (·.queue = q)).map (fun m => .json m.payload.stringified) := by
  obtain ⟨reads, rfl⟩ := h
  cases copy with
  | none => rfl
  | some m =>
    by_cases hq : m.queue = q
    · subst hq
      simp [receiving, AppState.settle, AppState.handOver, AppState.enqueue, serving]
    · have hne : q ≠ m.queue := fun h => hq h.symm
      simp [receiving, AppState.settle, AppState.handOver, AppState.enqueue, serving, hq, hne]

theorem receiving_queues {body : Content} {copy : Option Published} {t : AppState}
    (h : Delivered 0 (receiving body) (copy, .ack) t) {p r d : List Published}
    (hprocess : copy.toList.filter (·.queue = AppState.processQueue) = p)
    (hretry : copy.toList.filter (·.queue = AppState.retryQueue) = r)
    (hdlq : copy.toList.filter (·.queue = AppState.dlqQueue) = d) :
    Queues t (p.map (fun m => .json m.payload.stringified))
      (r.map (fun m => .json m.payload.stringified))
      (d.map (fun m => .json m.payload.stringified)) := by
  refine ⟨?_, ?_, ?_⟩
  · rw [receiving_settle body copy h, hprocess]
  · rw [receiving_settle body copy h, hretry]
  · rw [receiving_settle body copy h, hdlq]

theorem receiving_retry {body : Content} {m : Published} {t : AppState}
    (h : Delivered 0 (receiving body) (some m, .ack) t) (hm : m.queue = AppState.retryQueue) :
    Queues t [] [.json m.payload.stringified] [] := by
  have hprocess : m.queue ≠ AppState.processQueue := by
    rw [hm]
    decide
  have hdlq : m.queue ≠ AppState.dlqQueue := by
    rw [hm]
    decide
  exact receiving_queues h (p := []) (r := [m]) (d := []) (by simp [hprocess])
    (by simp [hm]) (by simp [hdlq])

theorem receiving_dlq {body : Content} {m : Published} {t : AppState}
    (h : Delivered 0 (receiving body) (some m, .ack) t) (hm : m.queue = AppState.dlqQueue) :
    Queues t [] [] [.json m.payload.stringified] := by
  have hprocess : m.queue ≠ AppState.processQueue := by
    rw [hm]
    decide
  have hretry : m.queue ≠ AppState.retryQueue := by
    rw [hm]
    decide
  exact receiving_queues h (p := []) (r := []) (d := [m]) (by simp [hprocess])
    (by simp [hretry]) (by simp [hm])

theorem handle_settled {body : Content} {t : AppState}
    (h : handleDelivery config describe result now body = some t) :
    t.settled = [(0, (afterDelivery config describe ⟨true, .accepted, now⟩ result body).2)] := by
  obtain ⟨t', ht', hdelivered⟩ := handleDelivery_spec config describe result now body
  obtain rfl := Option.some.inj (h.symm.trans ht')
  exact hdelivered.records.2

variable {payload : Json}

theorem afterDelivery_ok (hnull : payload ≠ .null) (hlog : payload.loggable = true)
    (value : ProcessOrderMessageResult) (c : Surroundings) :
    afterDelivery config describe c (.ok value) (.json payload) = (none, .ack) := by
  rw [afterDelivery_payload hnull, failureReason, if_pos hlog]

theorem afterDelivery_error (hnull : payload ≠ .null) (hlog : payload.loggable = true)
    (e : Thrown) :
    afterDelivery config describe ⟨true, .accepted, now⟩ (.error e) (.json payload) =
      match failureCopy config ⟨true, .accepted, now⟩ payload (getShortErrorReason describe e) with
      | none => (none, .nack true)
      | some copy => (some copy, .ack) := by
  rw [afterDelivery_payload hnull, failureReason, hlog]
  dsimp only
  cases failureCopy config ⟨true, .accepted, now⟩ payload (getShortErrorReason describe e) <;> rfl

theorem afterDelivery_unloggable (hnull : payload ≠ .null) (hlog : payload.loggable = false) :
    (afterDelivery config describe ⟨true, .accepted, now⟩ result (.json payload)).2 =
      .nack true := by
  rw [afterDelivery_payload hnull]
  cases hreason : failureReason describe result payload with
  | none => exact absurd (failureReason_none.mp hreason) (by simp [hlog])
  | some reason =>
    dsimp only
    cases failureCopy config ⟨true, .accepted, now⟩ payload reason with
    | none => rfl
    | some copy =>
      rw [hlog]
      rfl

theorem handle_ok (config : WorkerConfig) (describe : Thrown → String) (now : Nat)
    (hnull : payload ≠ .null) (hlog : payload.loggable = true) (value : ProcessOrderMessageResult) :
    ∃ t, handleDelivery config describe (.ok value) now (.json payload) = some t ∧
      t.settled = [(0, .ack)] ∧ Queues t [] [] [] := by
  obtain ⟨t, ht, hdelivered⟩ := handleDelivery_spec config describe (.ok value) now (.json payload)
  rw [afterDelivery_ok hnull hlog] at hdelivered
  exact ⟨t, ht, hdelivered.records.2, receiving_queues hdelivered rfl rfl rfl⟩

theorem handle_error (describe : Thrown → String) (hnull : payload ≠ .null)
    (hlog : payload.loggable = true) (e : Thrown)
    (hdate : (toISOString (stampTime config now (attemptOf payload))).isSome) :
    ∃ t copy, handleDelivery config describe (.error e) now (.json payload) = some t ∧
      t.settled = [(0, .ack)] ∧
      if config.maxAttempts - 1 ≤ attemptOf payload then
        Queues t [] [] [.json copy] ∧ CopyOf payload (attemptOf payload) copy
      else Queues t [] [.json copy] [] ∧ CopyOf payload (attemptOf payload + 1) copy := by
  obtain ⟨t, ht, hdelivered⟩ := handleDelivery_spec config describe (.error e) now (.json payload)
  rw [afterDelivery_error hnull hlog] at hdelivered
  have hsome : (failureCopy config ⟨true, .accepted, now⟩ payload
      (getShortErrorReason describe e)).isSome := by
    rw [failureCopy_isSome]
    exact hdate
  obtain ⟨copy, hcopy⟩ := Option.isSome_iff_exists.mp hsome
  rw [hcopy] at hdelivered
  refine ⟨t, copy.payload.stringified, ht, hdelivered.records.2, ?_⟩
  have hspec := failureCopy_spec hcopy
  split at hspec
  · next hlast =>
    rw [if_pos hlast]
    exact ⟨receiving_dlq hdelivered hspec.1, hspec.2⟩
  · next hlast =>
    rw [if_neg hlast]
    exact ⟨receiving_retry hdelivered hspec.1, hspec.2⟩

theorem handle_invalid (config : WorkerConfig) (describe : Thrown → String)
    (result : Except Thrown ProcessOrderMessageResult) (now : Nat) (raw : List UInt8) :
    ∃ t copy, handleDelivery config describe result now (.invalid raw) = some t ∧
      t.settled = [(0, .ack)] ∧ Queues t [] [] [.json copy] := by
  obtain ⟨t, ht, hdelivered⟩ := handleDelivery_spec config describe result now (.invalid raw)
  have hafter : Delivered 0 (receiving (.invalid raw)) (some (invalidCopy raw), .ack) t := hdelivered
  exact ⟨t, (invalidCopy raw).payload.stringified, ht, hafter.records.2, receiving_dlq hafter rfl⟩

theorem acked_payload {t : AppState}
    (h : handleDelivery config describe result now (.json payload) = some t)
    (hack : t.settled = [(0, .ack)]) : payload ≠ .null ∧ payload.loggable = true ∧
      ((∃ e, result = .error e) →
        (toISOString (stampTime config now (attemptOf payload))).isSome) := by
  have hsettled := handle_settled h
  rw [hack] at hsettled
  have hafter : (afterDelivery config describe ⟨true, .accepted, now⟩ result (.json payload)).2 =
      .ack := by
    simpa using hsettled.symm
  have hnull : payload ≠ .null := by
    rintro rfl
    cases hafter
  have hlog : payload.loggable = true := by
    cases hlog : payload.loggable with
    | true => rfl
    | false =>
      rw [afterDelivery_unloggable hnull hlog] at hafter
      cases hafter
  refine ⟨hnull, hlog, ?_⟩
  rintro ⟨e, rfl⟩
  rw [afterDelivery_error hnull hlog] at hafter
  cases hcopy : failureCopy config ⟨true, .accepted, now⟩ payload
      (getShortErrorReason describe e) with
  | none =>
    rw [hcopy] at hafter
    cases hafter
  | some copy =>
    have hdate := failureCopy_isSome config ⟨true, .accepted, now⟩ payload
      (getShortErrorReason describe e)
    rw [hcopy] at hdate
    exact hdate.symm

theorem acked_error {t : AppState} {e : Thrown} {process retry dlq : List Content}
    (h : handleDelivery config describe (.error e) now (.json payload) = some t)
    (hack : t.settled = [(0, .ack)]) (hqueues : Queues t process retry dlq) :
    ∃ copy, (config.maxAttempts - 1 ≤ attemptOf payload ∧ retry = [] ∧ dlq = [.json copy] ∧
        CopyOf payload (attemptOf payload) copy) ∨
      (¬ config.maxAttempts - 1 ≤ attemptOf payload ∧ retry = [.json copy] ∧ dlq = [] ∧
        CopyOf payload (attemptOf payload + 1) copy) := by
  obtain ⟨hnull, hlog, hdate⟩ := acked_payload h hack
  obtain ⟨t', copy, ht', _, hspec⟩ := handle_error describe hnull hlog e (hdate ⟨e, rfl⟩)
  obtain rfl := Option.some.inj (h.symm.trans ht')
  refine ⟨copy, ?_⟩
  split at hspec
  · next hlast =>
    obtain ⟨hqueues', hcopy⟩ := hspec
    exact .inl ⟨hlast, hqueues.retry.symm.trans hqueues'.retry,
      hqueues.dlq.symm.trans hqueues'.dlq, hcopy⟩
  · next hlast =>
    obtain ⟨hqueues', hcopy⟩ := hspec
    exact .inr ⟨hlast, hqueues.retry.symm.trans hqueues'.retry,
      hqueues.dlq.symm.trans hqueues'.dlq, hcopy⟩

end Delivery

section Chain

variable {config : WorkerConfig} {describe : Thrown → String}
  {results : Nat → Except Thrown ProcessOrderMessageResult} {clock : Nat → Nat} {origin : Content}

theorem keepsFields_copy {payload copy : Json} {attempt : Nat}
    (hkeeps : KeepsFields origin payload) (hsurvive : FieldsSurvive origin)
    (hcopy : CopyOf payload attempt copy) : KeepsFields origin copy := by
  intro fields horigin f hf
  rw [hcopy.fields f hf, hkeeps fields horigin f hf]
  exact hsurvive fields horigin f hf

/-- The attempts that are left bound the deliveries that are left. -/
theorem leaves_payload (n : Nat) : ∀ (k : Nat) (payload : Json), payload ≠ .null →
    payload.loggable = true → 1 ≤ n → config.maxAttempts ≤ n + attemptOf payload →
    KeepsFields origin payload → ((∃ e, results k = .error e) → FieldsSurvive origin) →
    DatesValid config results clock k (attemptOf payload) →
    LeavesWithin config describe results clock origin k n (.json payload) := by
  induction n with
  | zero =>
    intro k payload _ _ hn
    cases hn
  | succ n ih =>
    intro k payload hnull hlog _ hleft hkeeps hsurvive hdates
    cases hresult : results k with
    | ok value =>
      obtain ⟨t, ht, hsettled, hqueues⟩ := handle_ok config describe (clock k) hnull hlog value
      exact .success (by rw [hresult]; exact ht) hsettled hqueues
    | error e =>
      have hsurvive := hsurvive ⟨e, hresult⟩
      have hdate : (toISOString (stampTime config (clock k) (attemptOf payload))).isSome := by
        refine hdates 0 (Nat.zero_le _) (fun l hl => ⟨e, ?_⟩)
        obtain rfl := Nat.le_zero.mp hl
        exact hresult
      obtain ⟨t, copy, ht, hsettled, hspec⟩ := handle_error describe hnull hlog e hdate
      rw [← hresult] at ht
      split at hspec
      · next hlast =>
        obtain ⟨hqueues, hcopy⟩ := hspec
        refine .deadLettered ht hsettled hqueues (keepsFields_copy hkeeps hsurvive hcopy) ?_
        intro payload' _
        rw [hcopy.attempt]
        exact hlast
      · next hlast =>
        obtain ⟨hqueues, hcopy⟩ := hspec
        have hkept := keepsFields_copy hkeeps hsurvive hcopy
        refine .retried ht hsettled hqueues hkept hcopy.attempt ?_
        refine ih (k + 1) copy hcopy.ne_null (hcopy.loggable.trans hlog) (by omega) ?_ hkept
          (fun _ => hsurvive) ?_
        · rw [hcopy.attempt]
          omega
        · intro j hj hfails
          rw [hcopy.attempt] at hj ⊢
          have hnext := hdates (j + 1) (by omega) ?_
          · rw [Nat.add_assoc k 1 j, Nat.add_comm 1 j, Nat.add_assoc (attemptOf payload) 1 j,
              Nat.add_comm 1 j]
            exact hnext
          · intro l hl
            cases l with
            | zero => exact ⟨e, hresult⟩
            | succ l =>
              have hl := hfails l (by omega)
              rwa [Nat.add_assoc, Nat.add_comm 1 l] at hl

theorem LeavesWithin.dates {k n : Nat} {body : Content}
    (h : LeavesWithin config describe results clock origin k n body) :
    ∀ payload, body = .json payload → DatesValid config results clock k (attemptOf payload) := by
  induction h with
  | @success k n body t handled settled queues =>
    rintro payload rfl j hj hfails
    obtain ⟨e, he⟩ := hfails 0 (Nat.zero_le j)
    rw [Nat.add_zero] at he
    rw [he] at handled
    obtain ⟨copy, ⟨_, _, hdlq, _⟩ | ⟨_, hretry, _⟩⟩ := acked_error handled settled queues
    · cases hdlq
    · cases hretry
  | @deadLettered k n body t copy handled settled queues keeps last =>
    rintro payload rfl j hj hfails
    have hfirst := hfails 0 (Nat.zero_le j)
    rw [Nat.add_zero] at hfirst
    have hdate := (acked_payload handled settled).2.2 hfirst
    obtain ⟨e, he⟩ := hfirst
    rw [he] at handled
    obtain ⟨copy', ⟨hlast, _⟩ | ⟨_, hretry, _⟩⟩ := acked_error handled settled queues
    · obtain rfl : j = 0 := by omega
      exact hdate
    · cases hretry
  | @retried k n body t copy handled settled queues keeps counts next ih =>
    rintro payload rfl j hj hfails
    cases j with
    | zero =>
      have hfirst := hfails 0 (Nat.le_refl 0)
      exact (acked_payload handled settled).2.2 hfirst
    | succ j =>
      have hcounts : attemptOf copy = attemptOf payload + 1 := counts
      have hnext := ih copy rfl j (by omega) ?_
      · rw [hcounts, Nat.add_assoc, Nat.add_assoc, Nat.add_comm 1 j] at hnext
        exact hnext
      · intro l hl
        have hl := hfails (l + 1) (by omega)
        rwa [Nat.add_assoc, Nat.add_comm 1 l]

theorem LeavesWithin.acked {k n : Nat} {body : Content}
    (h : LeavesWithin config describe results clock origin k n body) :
    ∃ t, handleDelivery config describe (results k) (clock k) body = some t ∧
      t.settled = [(0, .ack)] := by
  cases h with
  | success handled settled queues => exact ⟨_, handled, settled⟩
  | deadLettered handled settled queues keeps last => exact ⟨_, handled, settled⟩
  | retried handled settled queues keeps counts next => exact ⟨_, handled, settled⟩

theorem CopyOf.survives {payload copy : Json} {attempt : Nat} (h : CopyOf payload attempt copy)
    (hkeeps : KeepsFields (.json payload) copy) : FieldsSurvive (.json payload) := by
  intro fields horigin f hf
  have hkept := hkeeps fields horigin f hf
  obtain rfl : payload = .obj fields := Content.json.inj horigin
  rw [← h.fields f hf]
  exact hkept

theorem LeavesWithin.fields {k n : Nat} {payload : Json} {e : Thrown}
    (h : LeavesWithin config describe results clock (.json payload) k n (.json payload))
    (he : results k = .error e) : FieldsSurvive (.json payload) := by
  cases h with
  | success handled settled queues =>
    rw [he] at handled
    obtain ⟨copy, ⟨_, _, hdlq, _⟩ | ⟨_, hretry, _⟩⟩ := acked_error handled settled queues
    · cases hdlq
    · cases hretry
  | deadLettered handled settled queues keeps last =>
    rw [he] at handled
    obtain ⟨copy, ⟨_, _, hdlq, hcopy⟩ | ⟨_, hretry, _⟩⟩ := acked_error handled settled queues
    · cases hdlq
      exact hcopy.survives keeps
    · cases hretry
  | retried handled settled queues keeps counts next =>
    rw [he] at handled
    obtain ⟨copy, ⟨_, _, hdlq, _⟩ | ⟨_, hretry, _, hcopy⟩⟩ := acked_error handled settled queues
    · cases hdlq
    · cases hretry
      exact hcopy.survives keeps

end Chain

theorem manageable_payload {config : WorkerConfig}
    {results : Nat → Except Thrown ProcessOrderMessageResult} {clock : Nat → Nat} {payload : Json}
    (hnull : payload ≠ .null) :
    Manageable config results clock (.json payload) ↔ payload.loggable = true ∧
      ((∃ e, results 0 = .error e) → FieldsSurvive (.json payload)) ∧
      DatesValid config results clock 0 (attemptOf payload) := by
  cases payload with
  | null => exact absurd rfl hnull
  | bool _ | num _ | overflow | str _ | arr _ | obj _ => exact Iff.rfl

/-- A message leaves the processing loop within the attempts it is given, exactly
if the worker can do its work on it. -/
theorem leavesWithin_iff (config : WorkerConfig) (describe : Thrown → String)
    (results : Nat → Except Thrown ProcessOrderMessageResult) (clock : Nat → Nat)
    (body : Content) :
    LeavesWithin config describe results clock body 0 config.maxAttempts body ↔
      Manageable config results clock body := by
  have hpos := config.pos
  constructor
  · intro h
    cases body with
    | invalid raw => trivial
    | json payload =>
      obtain ⟨t, ht, hack⟩ := h.acked
      obtain ⟨hnull, hlog, _⟩ := acked_payload ht hack
      exact (manageable_payload hnull).mpr ⟨hlog, fun ⟨e, he⟩ => h.fields he, h.dates payload rfl⟩
  · intro h
    cases body with
    | invalid raw =>
      obtain ⟨t, copy, ht, hsettled, hqueues⟩ := handle_invalid config describe (results 0)
        (clock 0) raw
      obtain ⟨n, hn⟩ : ∃ n, config.maxAttempts = n + 1 := ⟨config.maxAttempts - 1, by omega⟩
      rw [hn]
      exact .deadLettered ht hsettled hqueues nofun nofun
    | json payload =>
      by_cases hnull : payload = .null
      · subst hnull
        exact h.elim
      · obtain ⟨hlog, hsurvive, hdates⟩ := (manageable_payload hnull).mp h
        refine leaves_payload config.maxAttempts 0 payload hnull hlog hpos (by omega) ?_ hsurvive
          hdates
        intro fields horigin f _
        rw [Content.json.inj horigin]

/-- The body `null` is requeued again and again. -/
theorem leaves_null :
    ¬ ∀ (config : WorkerConfig) (describe : Thrown → String)
      (results : Nat → Except Thrown ProcessOrderMessageResult) (clock : Nat → Nat)
      (body : Content), LeavesWithin config describe results clock body 0 config.maxAttempts body := by
  intro h
  have hnull := h penWorker (fun _ => "") (fun _ => .error .channelClosed) (fun _ => 5) (.json .null)
  obtain ⟨t, ht, hack⟩ := hnull.acked
  have hsettled := handle_settled ht
  rw [hack] at hsettled
  exact absurd hsettled (by decide)

end Ecomm
