import Ecomm.OrdersWorker
import Ecomm.Sequential

/-! What a worker does with its delivery, as a program: it settles it once, and
acknowledges it only when its marker is committed or a copy was published. -/

namespace Ecomm

open Concurrent Sql

/-- The body is a message with the text `M` as its `messageId`. -/
def hasId (M : String) : Content → Prop
  | .json v => v.get "messageId" = some (.str M)
  | .invalid _ => False

def markerOf : Content → Option Uuid
  | .json v => (uuidParam (v.get "messageId")).toOption
  | .invalid _ => none

theorem markerOf_hasId {M : String} {body : Content} (h : hasId M body) :
    markerOf body = uuidIn M := by
  cases body with
  | invalid raw => exact h.elim
  | json v =>
    have h : v.get "messageId" = some (.str M) := h
    simp only [markerOf, h, uuidParam]
    cases uuidIn M <;> rfl

inductive TxState where
  | unknown
  | fresh
  | holds (m : Uuid)

/-- A worker with a delivery. `mark` records that the marker is committed, and
`released` that a copy has been published. -/
structure Courier where
  body : Content
  tx : TxState
  mark : Bool
  released : Bool
  settled : Bool

def Courier.begin (body : Content) : Courier := ⟨body, .unknown, false, false, false⟩

/-- A thread that makes a call keeps to the rules of its call alone. -/
inductive Role where
  | idle
  | caller (b : Bool)
  | courier (x : Courier)

def courierAllowed (x : Courier) : AppOp → Prop
  | .settle how => how = .nack true ∨ (how = .ack ∧ (x.released = true ∨ x.mark = true))
  | .sendToQueue m => (m.queue = AppState.retryQueue ∨ m.queue = AppState.dlqQueue) ∧
    ∀ M, hasId M x.body → hasId M (.json m.payload.stringified)
  | .sql (.stmt (.insert .processedMessages id _)) =>
    x.tx = .fresh ∧ ∃ m, id = some m ∧ markerOf x.body = some m
  | .sql (.stmt (.delete _ _)) => False
  | _ => True

def courierNext (x : Courier) : (o : AppOp) → Except Thrown o.Ans → Courier → Prop
  | .sql .startTransaction, .ok _, x' => x' = { x with tx := .fresh }
  | .sql .commitTransaction, .ok _, x' =>
    x' = { x with
      tx := .unknown
      mark := x.mark || (match x.tx with | .holds _ => true | _ => false) }
  | .sql .commitTransaction, .error _, x' | .sql .rollbackTransaction, _, x' =>
    x' = { x with tx := .unknown }
  | .sql (.stmt (.insert .processedMessages id _)), .ok _, x' =>
    ∃ m, id = some m ∧ x' = { x with tx := .holds m }
  | .sql (.stmt (.insert .processedMessages _ _)), .error (.sql .uniqueViolation), x' =>
    x' = { x with tx := .unknown, mark := true }
  | .sql (.stmt (.malformed e)), .error (.sql .uniqueViolation), x' =>
    x' = { x with tx := .unknown } ∧ e = .uniqueViolation
  | .sql (.stmt _), .error _, x' => x' = { x with tx := .unknown }
  | .sql (.stmt _), .ok _, x' =>
    x' = match x.tx with | .holds _ => x | _ => { x with tx := .unknown }
  | .sendToQueue _, .ok true, x' => x' = { x with released := true }
  | .settle _, .ok _, x' => x' = { x with settled := true }
  | .settle _, .error _, _ => False
  | _, _, x' => x' = x

theorem courierNext_sql {x x' : Courier} {q : Op schema} {r : Except Thrown (AppOp.sql q).Ans}
    (h : courierNext x (.sql q) r x') : ∃ tx mark, x' = { x with tx, mark } := by
  have hgeneric : (x' = match x.tx with | .holds _ => x | _ => { x with tx := .unknown }) →
      ∃ tx mark, x' = { x with tx, mark } := by
    obtain ⟨body, tx, mark, released, settled⟩ := x
    cases tx <;> exact fun h => ⟨_, _, h⟩
  cases q with
  | startTransaction => cases r <;> exact ⟨_, _, h⟩
  | commitTransaction => cases r <;> exact ⟨_, _, h⟩
  | rollbackTransaction => cases r <;> exact ⟨_, _, h⟩
  | stmt q =>
    cases q with
    | insert t id row =>
      cases t with
      | processedMessages =>
        cases r with
        | ok a =>
          obtain ⟨m, _, h⟩ := h
          exact ⟨_, _, h⟩
        | error e =>
          cases e with
          | sql e => cases e <;> exact ⟨_, _, h⟩
          | _ => exact ⟨_, _, h⟩
      | _ =>
        cases r with
        | ok a => exact hgeneric h
        | error e => exact ⟨_, _, h⟩
    | malformed e =>
      cases r with
      | ok a => exact nomatch (show Empty from a)
      | error e' =>
        cases e' with
        | sql e' =>
          cases e' with
          | uniqueViolation => exact ⟨_, _, h.1⟩
          | _ => exact ⟨_, _, h⟩
        | _ => exact ⟨_, _, h⟩
    | select t cond | selectForUpdate t id | update t id set | delete t id =>
      cases r with
      | ok a => exact hgeneric h
      | error e => exact ⟨_, _, h⟩

def custodyRules : Protocol AppOp AppOp.Ans Thrown Role where
  allowed
    | .idle, _ => False
    | .caller b, o => tidyAllowed b o
    | .courier x, o => x.settled = false ∧ courierAllowed x o
  next
    | .idle, _, _, _ => False
    | .caller b, o, r, g' => g' = .caller (opens b o r)
    | .courier x, o, r, g' => ∃ x', g' = .courier x' ∧ courierNext x o r x'

theorem Tidy.caller {α : Type} {p : App α} (hp : Tidy p) :
    p.wp custodyRules (fun _ _ => True) (fun _ _ => True) (.caller false) := by
  refine Prog.wp_mono (Prog.wp_simulation (R := fun b g => g = .caller b) ?_ rfl hp)
    (fun _ _ _ => trivial) (fun _ _ _ => trivial)
  rintro b _ o rfl ha
  refine ⟨ha, ?_⟩
  rintro r _ rfl
  exact ⟨opens b o r, rfl, rfl⟩

/-! The rules of the calls of a worker. -/

section Calls

variable {α β : Type} {x : Courier}

/-- The worker has learned about its transaction only. -/
def Courier.Same (x : Courier) (g : Role) : Prop := ∃ tx, g = .courier { x with tx }

theorem wp_courier {o : AppOp} {Q : o.Ans → Role → Prop} {E : Thrown → Role → Prop}
    (hs : x.settled = false) (ha : courierAllowed x o)
    (hok : ∀ a x', courierNext x o (.ok a) x' → Q a (.courier x'))
    (herr : ∀ e x', courierNext x o (.error e) x' → E e (.courier x')) :
    (await o).wp custodyRules Q E (.courier x) := by
  refine (Prog.wp_await _ _ _ _).mpr ⟨⟨hs, ha⟩, ?_, ?_⟩
  · rintro a _ ⟨x', rfl, hn⟩
    exact hok a x' hn
  · rintro e _ ⟨x', rfl, hn⟩
    exact herr e x' hn

/-- A program that a worker with its marker written can run in its transaction. -/
def Steady (p : App α) : Prop :=
  ∀ (x : Courier) (m : Uuid), x.settled = false → x.tx = .holds m →
    p.wp custodyRules (fun _ g => g = .courier x) (fun _ g => x.Same g) (.courier x)

theorem steady_pure (a : α) : Steady (pure a) := fun _ _ _ _ => rfl

theorem steady_throw (e : Thrown) : Steady (throw e : App α) := fun x _ _ _ => ⟨x.tx, rfl⟩

theorem Steady.bind {p : App α} {f : α → App β} (hp : Steady p) (hf : ∀ a, Steady (f a)) :
    Steady (p >>= f) := by
  intro x m hs htx
  refine (Prog.wp_bind _ _ _ _ _).mpr (Prog.wp_mono (hp x m hs htx) ?_ (fun _ _ h => h))
  rintro a _ rfl
  exact hf a x m hs htx

/-- A statement that a marker in the transaction outlasts. -/
theorem steady_stmt {q : Stmt schema} (ha : ∀ x, courierAllowed x (.sql (.stmt q)))
    (hok : ∀ x a x', courierNext x (.sql (.stmt q)) (.ok a) x' →
      x' = match x.tx with | .holds _ => x | _ => { x with tx := .unknown })
    (herr : ∀ x e x', courierNext x (.sql (.stmt q)) (.error e) x' →
      x' = { x with tx := .unknown }) : Steady (sql (.stmt q)) := by
  intro x m hs htx
  refine wp_courier hs (ha x) ?_ ?_
  · intro a x' hn
    rw [hok x a x' hn, htx]
  · intro e x' hn
    exact ⟨.unknown, congrArg Role.courier (herr x e x' hn)⟩

theorem steady_findOne (t : Table) (cond : Uuid → t.Row → Bool) : Steady (findOne t cond) := by
  have hfind : Steady (find t cond) :=
    steady_stmt (fun _ => trivial) (fun _ _ _ hn => hn) (fun _ e _ hn => by cases e <;> exact hn)
  exact hfind.bind (fun _ => steady_pure _)

theorem steady_update (t : Table) (id : Uuid) (set : Nat → t.Row → t.Row) :
    Steady (update t id set) :=
  steady_stmt (fun _ => trivial) (fun _ _ _ hn => hn) (fun _ e _ hn => by cases e <;> exact hn)

theorem steady_insertOrder (id : Option Uuid) (row : Nat → Order) :
    Steady (insert .orders id row) :=
  steady_stmt (fun _ => trivial) (fun _ _ _ hn => hn) (fun _ e _ hn => by cases e <;> exact hn)

theorem steady_dateNow : Steady (await .dateNow) := by
  intro x m hs _
  refine wp_courier hs trivial ?_ ?_
  · rintro a x' rfl
    rfl
  · rintro e x' rfl
    exact ⟨x'.tx, rfl⟩

theorem steady_saveOrder (id : Uuid) (entity : Order) : Steady (managerSave .orders id entity) := by
  refine (steady_findOne .orders _).bind (fun found => ?_)
  split
  · exact steady_pure _
  · cases found with
    | none => exact (steady_insertOrder _ _).bind (fun _ => steady_pure _)
    | some e => exact (steady_update .orders _ _).bind (fun _ => steady_pure _)

end Calls

def CarriesMarker (message : Json.Fields) (body : Content) : Prop :=
  (uuidParam (message.lookup "messageId")).toOption = markerOf body

def Courier.Marked (x : Courier) (g : Role) : Prop := ∃ tx, g = .courier { x with tx, mark := true }

def Courier.Kept (x : Courier) (g : Role) : Prop := ∃ tx mark, g = .courier { x with tx, mark }

section Process

variable {x : Courier} {message : Json.Fields}

theorem wp_insertMarker_custody (hs : x.settled = false) (htx : x.tx = .fresh)
    (hm : CarriesMarker message x.body) :
    (insertMarker (message.lookup "messageId") (message.lookup "orderId")).wp custodyRules
      (fun _ g => ∃ m, g = .courier { x with tx := .holds m })
      (fun e g => (isUniqueViolation e = true → x.Marked g) ∧ x.Kept g) (.courier x) := by
  have hplain : ∀ (e : Thrown) (x' : Courier), isUniqueViolation e = false →
      x' = { x with tx := .unknown } →
      (isUniqueViolation e = true → x.Marked (.courier x')) ∧ x.Kept (.courier x') := by
    intro e x' he hx'
    subst hx'
    refine ⟨fun hunique => ?_, .unknown, x.mark, rfl⟩
    rw [he] at hunique
    cases hunique
  have hreject : ∀ e : SqlError, e ≠ .uniqueViolation →
      (reject e : App Uuid).wp custodyRules (fun _ g => ∃ m, g = .courier { x with tx := .holds m })
        (fun e g => (isUniqueViolation e = true → x.Marked g) ∧ x.Kept g) (.courier x) := by
    intro e he
    refine (Prog.wp_bind _ _ _ _ _).mpr (wp_courier hs trivial ?_ ?_)
    · intro a
      exact nomatch (show Empty from a)
    · intro e' x' hn
      cases e' with
      | sql e' =>
        cases e' with
        | uniqueViolation => exact absurd hn.2 he
        | _ => exact hplain _ x' rfl hn
      | _ => exact hplain _ x' rfl hn
  unfold insertMarker
  split
  · next m o hid _ =>
    have hmarker : markerOf x.body = some m := by
      rw [← hm, hid]
      rfl
    refine (Prog.wp_bind _ _ _ _ _).mpr (wp_courier hs ⟨htx, m, rfl, hmarker⟩ ?_ ?_)
    · rintro a x' ⟨m', _, rfl⟩
      exact ⟨m', rfl⟩
    · intro e x' hn
      cases e with
      | sql e =>
        cases e with
        | uniqueViolation =>
          obtain rfl : x' = { x with tx := .unknown, mark := true } := hn
          exact ⟨fun _ => ⟨.unknown, rfl⟩, .unknown, true, rfl⟩
        | _ => exact hplain _ x' rfl hn
      | _ => exact hplain _ x' rfl hn
  · next e he => exact hreject e (uuidParam_error he)
  · next e he _ => exact hreject e (uuidParam_error he)

theorem steady_processMarked (orderId : Uuid) : Steady (do
    match ← findOne .orders (fun id _ => id = orderId) with
    | none => throw (.notFound "Order not found")
    | some (id, order) =>
      if order.status = .processed then pure (.unchanged id order)
      else do
        let now ← await .dateNow
        let savedOrder ← managerSave .orders id
          { order with status := .processed, processedAt := some now }
        pure (.statusChanged id savedOrder) : App Processing) := by
  refine (steady_findOne .orders _).bind (fun found => ?_)
  cases found with
  | none => exact steady_throw _
  | some e =>
    dsimp only
    split
    · exact steady_pure _
    · refine steady_dateNow.bind (fun now => ?_)
      exact (steady_saveOrder _ _).bind (fun _ => steady_pure _)

theorem wp_commit_custody (hs : x.settled = false) {result : Processing}
    (hmark : x.mark = true ∨ ∃ m, x.tx = .holds m) :
    (do commitTransaction; pure result : App Processing).wp custodyRules
      (fun _ g => x.Marked g) (fun _ g => x.Kept g) (.courier x) := by
  refine (Prog.wp_bind _ _ _ _ _).mpr (wp_courier hs trivial ?_ ?_)
  · rintro a x' rfl
    refine ⟨.unknown, ?_⟩
    rcases hmark with hmark | ⟨m, hm⟩
    · simp [hmark]
    · simp [hm]
  · rintro e x' rfl
    exact ⟨.unknown, x.mark, rfl⟩

theorem wp_processInTransaction_custody (hs : x.settled = false) (htx : x.tx = .fresh)
    (hm : CarriesMarker message x.body) :
    (do let result ← processInTransaction message; commitTransaction; pure result :
      App Processing).wp custodyRules (fun _ g => x.Marked g) (fun _ g => x.Kept g)
      (.courier x) := by
  refine (Prog.wp_bind _ _ _ _ _).mpr ((Prog.wp_bind _ _ _ _ _).mpr ?_)
  refine (Prog.wp_tryCatch _ _ _ _ _).mpr ((Prog.wp_bind _ _ _ _ _).mpr ?_)
  refine Prog.wp_mono (wp_insertMarker_custody hs htx hm) ?_ ?_
  · rintro orderId _ ⟨m, rfl⟩
    refine (Prog.wp_ret _ _ _ _).mpr ?_
    refine Prog.wp_mono (steady_processMarked orderId { x with tx := .holds m } m hs rfl) ?_ ?_
    · rintro result _ rfl
      refine Prog.wp_mono (wp_commit_custody (x := { x with tx := .holds m }) hs (.inr ⟨m, rfl⟩))
        ?_ ?_
      · rintro _ _ ⟨tx, rfl⟩
        exact ⟨tx, rfl⟩
      · rintro _ _ ⟨tx, mark, rfl⟩
        exact ⟨tx, mark, rfl⟩
    · rintro _ _ ⟨tx, rfl⟩
      exact ⟨tx, x.mark, rfl⟩
  · rintro error g ⟨hmarked, hkept⟩
    split
    · next hu =>
      obtain ⟨tx, rfl⟩ := hmarked hu
      refine (Prog.wp_ret _ _ _ _).mpr ((Prog.wp_ret _ _ _ _).mpr ?_)
      refine Prog.wp_mono (wp_commit_custody (x := { x with tx, mark := true }) hs (.inl rfl)) ?_ ?_
      · rintro _ _ ⟨tx, rfl⟩
        exact ⟨tx, rfl⟩
      · rintro _ _ ⟨tx, mark, rfl⟩
        exact ⟨tx, mark, rfl⟩
    · exact hkept

theorem wp_transaction_custody (hs : x.settled = false) {body : App Processing}
    (hbody : (do let result ← body; commitTransaction; pure result : App Processing).wp custodyRules
      (fun _ g => x.Marked g) (fun _ g => x.Kept g) (.courier { x with tx := .fresh })) :
    (transaction body).wp custodyRules (fun _ g => x.Marked g) (fun _ g => x.Kept g)
      (.courier x) := by
  have hcatch : ∀ (error : Thrown) (g : Role), x.Kept g → Prog.wp custodyRules (do
      try rollbackTransaction catch _ => pure ()
      throw error : App Processing) (fun _ g => x.Marked g) (fun _ g => x.Kept g) g := by
    rintro error _ ⟨tx, mark, rfl⟩
    refine (Prog.wp_bind _ _ _ _ _).mpr ((Prog.wp_tryCatch _ _ _ _ _).mpr ?_)
    refine wp_courier hs trivial ?_ ?_
    · rintro a x' rfl
      exact ⟨.unknown, mark, rfl⟩
    · rintro e x' rfl
      exact ⟨.unknown, mark, rfl⟩
  refine (Prog.wp_tryCatch _ _ _ _ _).mpr ((Prog.wp_bind _ _ _ _ _).mpr ?_)
  refine wp_courier hs trivial ?_ ?_
  · rintro a x' rfl
    exact Prog.wp_mono hbody (fun _ _ h => h) (fun e g h => hcatch e g h)
  · rintro e x' rfl
    exact hcatch e _ ⟨x'.tx, x'.mark, rfl⟩

theorem wp_processOrderMessage_custody (hs : x.settled = false)
    (hm : CarriesMarker message x.body) :
    (processOrderMessage message).wp custodyRules (fun _ g => x.Marked g) (fun _ g => x.Kept g)
      (.courier x) := by
  refine (Prog.wp_bind _ _ _ _ _).mpr (Prog.wp_mono (wp_transaction_custody hs ?_) ?_
    (fun _ _ h => h))
  · refine Prog.wp_mono (wp_processInTransaction_custody (x := { x with tx := .fresh }) hs rfl hm)
      ?_ ?_
    · rintro _ _ ⟨tx, rfl⟩
      exact ⟨tx, rfl⟩
    · rintro _ _ ⟨tx, mark, rfl⟩
      exact ⟨tx, mark, rfl⟩
  · rintro result _ ⟨tx, rfl⟩
    cases result with
    | deduplicated => exact ⟨tx, rfl⟩
    | unchanged id order => exact ⟨tx, rfl⟩
    | statusChanged id order =>
      refine (Prog.wp_bind _ _ _ _ _).mpr (wp_courier hs trivial ?_ ?_)
      · rintro ts x' rfl
        refine (Prog.wp_bind _ _ _ _ _).mpr (wp_courier hs trivial ?_ ?_)
        · rintro _ x' rfl
          exact ⟨tx, rfl⟩
        · rintro _ x' rfl
          exact ⟨tx, true, rfl⟩
      · rintro _ x' rfl
        exact ⟨tx, true, rfl⟩

end Process

/-! The handler: whatever happens, the delivery is settled once. -/

def Unsettled (body : Content) (g : Role) : Prop :=
  ∃ x : Courier, g = .courier x ∧ x.body = body ∧ x.settled = false

def IsSettled (body : Content) (g : Role) : Prop :=
  ∃ x : Courier, g = .courier x ∧ x.body = body ∧ x.settled = true

section Handler

variable {x : Courier} {body : Content}

theorem wp_publish {queue : String} {payload : Json} {options : PublishOptions}
    (hs : x.settled = false)
    (hq : queue = AppState.retryQueue ∨ queue = AppState.dlqQueue)
    (hcopy : ∀ M, hasId M x.body → hasId M (.json payload.stringified)) :
    (publishToQueue queue payload options).wp custodyRules
      (fun b g => if b then g = .courier { x with released := true } else g = .courier x)
      (fun _ g => g = .courier x) (.courier x) := by
  refine (Prog.wp_bind _ _ _ _ _).mpr (wp_courier hs trivial ?_ ?_)
  · rintro ready x' rfl
    cases ready with
    | false => rfl
    | true =>
      refine wp_courier hs ⟨hq, hcopy⟩ ?_ ?_
      · intro b x' hn
        cases b with
        | true => exact congrArg Role.courier hn
        | false => exact congrArg Role.courier hn
      · intro e x' hn
        exact congrArg Role.courier hn
  · rintro e x' rfl
    rfl

theorem wp_log {messageId orderId : Option Json} :
    (logDeliveryResult messageId orderId).wp custodyRules (fun _ g => g = .courier x)
      (fun _ g => g = .courier x) (.courier x) := by
  unfold logDeliveryResult
  split <;> rfl

theorem wp_ack (hs : x.settled = false) (hr : x.released = true ∨ x.mark = true) :
    ack.wp custodyRules (fun _ g => IsSettled x.body g) (fun _ g => Unsettled x.body g)
      (.courier x) := by
  refine wp_courier hs (.inr ⟨rfl, hr⟩) ?_ (fun _ _ hn => hn.elim)
  rintro _ x' rfl
  exact ⟨_, rfl, rfl, rfl⟩

theorem wp_published {queue : String} {messageId orderId : Option Json} {published : Bool}
    (hs : x.settled = false) {g : Role}
    (hg : if published then g = .courier { x with released := true } else g = .courier x) :
    (if ¬ published then publishFailed queue
      else do
        logDeliveryResult messageId orderId
        ack : App Unit).wp custodyRules (fun _ g => IsSettled x.body g)
      (fun _ g => Unsettled x.body g) g := by
  cases published with
  | false =>
    obtain rfl : g = .courier x := hg
    exact ⟨x, rfl, rfl, hs⟩
  | true =>
    obtain rfl : g = .courier { x with released := true } := hg
    refine (Prog.wp_bind _ _ _ _ _).mpr (Prog.wp_mono wp_log ?_ ?_)
    · rintro _ _ rfl
      exact wp_ack (x := { x with released := true }) hs (.inl rfl)
    · rintro _ _ rfl
      exact ⟨_, rfl, rfl, hs⟩

theorem wp_publishAndAck {queue : String} {payload : Json} {options : PublishOptions}
    {messageId orderId : Option Json} (hs : x.settled = false)
    (hq : queue = AppState.retryQueue ∨ queue = AppState.dlqQueue)
    (hcopy : ∀ M, hasId M x.body → hasId M (.json payload.stringified)) :
    (do
      let published ← publishToQueue queue payload options
      if ¬ published then publishFailed queue
      else do
        logDeliveryResult messageId orderId
        ack : App Unit).wp custodyRules (fun _ g => IsSettled x.body g)
      (fun _ g => Unsettled x.body g) (.courier x) := by
  refine (Prog.wp_bind _ _ _ _ _).mpr (Prog.wp_mono (wp_publish hs hq hcopy) ?_ ?_)
  · intro published g hg
    exact wp_published hs hg
  · rintro _ _ rfl
    exact ⟨x, rfl, rfl, hs⟩

theorem wp_isoString (hs : x.settled = false) {ms : Nat} :
    (isoString ms).wp custodyRules (fun _ g => g = .courier x) (fun _ g => Unsettled x.body g)
      (.courier x) := by
  unfold isoString
  split
  · exact ⟨x, rfl, rfl, hs⟩
  · rfl

theorem copy_hasId {payload : Json} (fields : List (String × Json))
    (hkeys : ∀ f ∈ fields, f.1 ≠ "messageId") {M : String} (h : hasId M (.json payload)) :
    hasId M (.json (Json.obj (fields.foldr (fun f fs => Json.setField f.1 f.2 fs)
      payload.spread)).stringified) := by
  refine Json.get_stringified_str ?_
  have h : payload.get "messageId" = some (.str M) := h
  cases payload with
  | obj fs =>
    induction fields with
    | nil => exact h
    | cons f rest ih =>
      rw [List.foldr_cons, Json.get, Json.lookup_setField_other _ (hkeys f List.mem_cons_self).symm]
      exact ih (fun f' hf' => hkeys f' (List.mem_cons_of_mem _ hf'))
  | null | bool _ | num _ | overflow | str _ | arr _ => cases h

theorem wp_deadLetter {payload : Json} {attempt : Nat} {errorReason : String}
    (hs : x.settled = false) (hbody : x.body = .json payload) :
    (deadLetter payload attempt errorReason).wp custodyRules (fun _ g => IsSettled x.body g)
      (fun _ g => Unsettled x.body g) (.courier x) := by
  refine (Prog.wp_bind _ _ _ _ _).mpr (wp_courier hs trivial ?_ ?_)
  · rintro now x' rfl
    refine (Prog.wp_bind _ _ _ _ _).mpr (Prog.wp_mono (wp_isoString hs) ?_ (fun _ _ h => h))
    rintro failedAt _ rfl
    refine wp_publishAndAck hs (.inr rfl) ?_
    intro M hM
    rw [hbody] at hM
    exact copy_hasId [("errorReason", _), ("failedAt", _), ("attempt", _)] (by simp) hM
  · rintro e x' rfl
    exact ⟨x', rfl, rfl, hs⟩

theorem wp_retryLater {config : WorkerConfig} {payload : Json} {attempt : Nat}
    {errorReason : String} (hs : x.settled = false) (hbody : x.body = .json payload) :
    (retryLater config payload attempt errorReason).wp custodyRules
      (fun _ g => IsSettled x.body g) (fun _ g => Unsettled x.body g) (.courier x) := by
  refine (Prog.wp_bind _ _ _ _ _).mpr (wp_courier hs trivial ?_ ?_)
  · rintro now x' rfl
    refine (Prog.wp_bind _ _ _ _ _).mpr (Prog.wp_mono (wp_isoString hs) ?_ (fun _ _ h => h))
    rintro retryAt _ rfl
    refine wp_publishAndAck hs (.inl rfl) ?_
    intro M hM
    rw [hbody] at hM
    exact copy_hasId [("errorReason", _), ("retryAt", _), ("attempt", _)] (by simp) hM
  · rintro e x' rfl
    exact ⟨x', rfl, rfl, hs⟩

theorem carriesMarker_payload {payload : Json} (attempt : Nat) :
    CarriesMarker (Json.setField "attempt" (.num attempt) payload.spread) (.json payload) := by
  rw [CarriesMarker, Json.lookup_setField_other _ (by decide),
    Json.lookup_spread (Json.index_ne (c := 'm') (by decide) (by decide)), markerOf]

theorem wp_handleMessage (config : WorkerConfig) (describe : Thrown → String) (body : Content) :
    (handleMessage config describe processOrderMessage body).wp custodyRules
      (fun _ g => IsSettled body g) (fun _ g => Unsettled body g) (.courier (.begin body)) := by
  cases body with
  | invalid raw => exact wp_publishAndAck rfl (.inr rfl) (fun M hM => hM.elim)
  | json payload =>
    have hread : (handleMessage config describe processOrderMessage (.json payload)) =
        throw (.typeError "Cannot read properties of null (reading 'attempt')") ∨
        handleMessage config describe processOrderMessage (.json payload) = (do
          let attempt := attemptOf payload
          try
            let _ ← processOrderMessage (Json.setField "attempt" (.num attempt) payload.spread)
            logDeliveryResult (payload.get "messageId") (payload.get "orderId")
            ack
          catch error =>
            let errorReason := getShortErrorReason describe error
            if config.maxAttempts - 1 ≤ attempt then deadLetter payload attempt errorReason
            else retryLater config payload attempt errorReason) := by
      cases payload with
      | null => exact .inl rfl
      | bool _ | num _ | overflow | str _ | arr _ | obj _ => exact .inr rfl
    rcases hread with he | he <;> rw [he]
    · exact ⟨_, rfl, rfl, rfl⟩
    · have hcatch : ∀ (error : Thrown) (g : Role), Unsettled (.json payload) g →
          (if config.maxAttempts - 1 ≤ attemptOf payload then
            deadLetter payload (attemptOf payload) (getShortErrorReason describe error)
          else retryLater config payload (attemptOf payload)
            (getShortErrorReason describe error)).wp custodyRules
            (fun _ g => IsSettled (.json payload) g) (fun _ g => Unsettled (.json payload) g) g := by
        rintro error _ ⟨x, rfl, hb, hs⟩
        rw [← hb]
        split
        · exact wp_deadLetter hs hb
        · exact wp_retryLater hs hb
      refine (Prog.wp_tryCatch _ _ _ _ _).mpr ((Prog.wp_bind _ _ _ _ _).mpr ?_)
      refine Prog.wp_mono (wp_processOrderMessage_custody (x := .begin (.json payload)) rfl
        (carriesMarker_payload _)) ?_ ?_
      · rintro _ _ ⟨tx, rfl⟩
        refine (Prog.wp_bind _ _ _ _ _).mpr (Prog.wp_mono wp_log ?_ ?_)
        · rintro _ _ rfl
          refine Prog.wp_mono (wp_ack rfl (.inr rfl)) (fun _ _ h => h) ?_
          exact fun e g h => hcatch e g h
        · rintro e _ rfl
          exact hcatch e _ ⟨_, rfl, rfl, rfl⟩
      · rintro error _ ⟨tx, mark, rfl⟩
        exact hcatch error _ ⟨_, rfl, rfl, rfl⟩

/-- However the handling of a delivery ends, the delivery has been settled. -/
theorem wp_onMessage (config : WorkerConfig) (describe : Thrown → String) (body : Content) :
    (onMessage config describe processOrderMessage body).wp custodyRules
      (fun _ g => IsSettled body g) (fun _ _ => False) (.courier (.begin body)) := by
  refine (Prog.wp_tryCatch _ _ _ _ _).mpr
    (Prog.wp_mono (wp_handleMessage config describe body) (fun _ _ h => h) ?_)
  rintro error _ ⟨x, rfl, hb, hs⟩
  refine wp_courier hs (.inl rfl) ?_ (fun _ _ hn => hn.elim)
  rintro _ x' rfl
  exact ⟨_, rfl, hb, rfl⟩

end Handler

end Ecomm
