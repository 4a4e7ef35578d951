import Ecomm.Custody
import Ecomm.Lib.Growing
import Ecomm.Redelivery

/-! Workers, the broker and the database together: no message on
`orders.process` is lost, and every handled delivery is settled once. -/

namespace Ecomm

open Concurrent Sql

/-- `step` is an operation of a thread, `crash` the loss of one, and `expire`
the end of the delay of a message on the retry queue. -/
inductive BrokerEvent where
  | arrive (body : Content)
  | deliver (i : Nat) (k : Nat)
  | step (i : Nat) (choice : AppChoice)
  | crash (i : Nat)
  | expire (k : Nat)

namespace AppState

def takeFrom (s : AppState) (q : String) (k : Nat) : AppState :=
  { s with queue := Function.update s.queue q ((s.queue q).eraseIdx k) }

def deliver (s : AppState) (i k : Nat) (body : Content) : AppState :=
  { s.takeFrom processQueue k with unacked := Function.update s.unacked i (some body) }

/-- A lost thread loses its transaction, and its delivery goes back. -/
def crash (s : AppState) (i : Nat) : AppState :=
  let s' : AppState := { s with store := s.store.close i }
  match s.unacked i with
  | none => s'
  | some body =>
    { s'.enqueue processQueue body with unacked := Function.update s.unacked i none }

end AppState

section

variable (config : WorkerConfig) (describe : Thrown → String)

def brokerStep (c : Config app Unit) : BrokerEvent → Option (Config app Unit)
  | .arrive body => some { c with shared := c.shared.enqueue AppState.processQueue body }
  | .deliver i k =>
    match c.thread i, (c.shared.queue AppState.processQueue)[k]? with
    | none, some body =>
      some ⟨c.shared.deliver i k body,
        Function.update c.thread i (some (onMessage config describe processOrderMessage body))⟩
    | _, _ => none
  | .step i choice => c.step i choice
  | .crash i =>
    match c.thread i with
    | some (.op _ _) =>
      some ⟨c.shared.crash i, Function.update c.thread i (some (.raise .channelClosed))⟩
    | _ => none
  | .expire k =>
    match (c.shared.queue AppState.retryQueue)[k]? with
    | some body =>
      some { c with
        shared := (c.shared.takeFrom AppState.retryQueue k).enqueue AppState.processQueue body }
    | none => none

def brokerRun : Config app Unit → List BrokerEvent → Option (Config app Unit)
  | c, [] => some c
  | c, e :: es => (brokerStep config describe c e).bind (fun c' => brokerRun c' es)

end

def consuming (s : AppState) (calls : List Operation) : Config app Unit :=
  ⟨s, fun i => (calls[i]?).map (fun call => do
    let _ ← call.program
    pure ())⟩

def settlements (s : AppState) (i : Nat) : List Settlement :=
  (s.settled.filter (·.1 = i)).map (·.2)

/-- A copy of the message is in a queue or with a worker, or its marker is
committed. -/
def InSystem (M : String) (s : AppState) : Prop :=
  (∃ q ∈ [AppState.processQueue, AppState.retryQueue, AppState.dlqQueue],
      ∃ body ∈ s.queue q, hasId M body) ∨
    (∃ i body, s.unacked i = some body ∧ hasId M body) ∨
    ∃ m, uuidIn M = some m ∧ marked s.store.tables m

/-! What the roles of the threads say of the state. -/

structure AtCourier (s : AppState) (i : Nat) (x : Courier) : Prop where
  fresh : x.tx = .fresh → s.store.tx i = some ⟨[], false⟩
  holds : ∀ m, x.tx = .holds m → markerOf x.body = some m ∧ ∃ y, s.store.tx i = some y ∧
    y.aborted = false ∧ ∃ w ∈ y.writes, w.at .processedMessages m
  mark : x.mark = true → ∃ m, markerOf x.body = some m ∧ marked s.store.tables m
  unacked : s.unacked i = if x.settled then none else some x.body
  settled : if x.settled then settlements s i = [.ack] ∨ settlements s i = [.nack true]
    else settlements s i = []

def AtRole (s : AppState) (i : Nat) : Role → Prop
  | .idle => s.unacked i = none ∧ settlements s i = []
  | .caller _ => s.unacked i = none
  | .courier x => AtCourier s i x

structure Custody (s : AppState) (γ : Nat → Role) : Prop where
  growing : s.store.Growing
  role : ∀ i, AtRole s i (γ i)

/-- A copy that nobody has released yet, or the marker. -/
def Safe (M : String) (s : AppState) (γ : Nat → Role) : Prop :=
  (∃ q ∈ [AppState.processQueue, AppState.retryQueue, AppState.dlqQueue],
      ∃ body ∈ s.queue q, hasId M body) ∨
    (∃ i x, γ i = .courier x ∧ hasId M x.body ∧ x.settled = false ∧ x.released = false) ∨
    ∃ m, uuidIn M = some m ∧ marked s.store.tables m

theorem Safe.inSystem {M : String} {s : AppState} {γ : Nat → Role} (h : Safe M s γ)
    (hc : Custody s γ) : InSystem M s := by
  refine h.imp_right (Or.imp_left ?_)
  rintro ⟨i, x, hx, hM, hs, _⟩
  have hat := hc.role i
  rw [hx] at hat
  exact ⟨i, x.body, by simpa [hs] using hat.unacked, hM⟩

theorem marked_within {T T' : Database} (h : T.Within T') {m : Uuid} (hm : marked T m) :
    marked T' m := h .processedMessages m hm

theorem AtRole.frame {s s' : AppState} {i : Nat} {g : Role} (h : AtRole s i g)
    (htx : s'.store.tx i = s.store.tx i) (hun : s'.unacked i = s.unacked i)
    (hset : settlements s' i = settlements s i) (hw : s.store.tables.Within s'.store.tables) :
    AtRole s' i g := by
  cases g with
  | idle => exact ⟨hun.trans h.1, hset.trans h.2⟩
  | caller b => exact hun.trans h
  | courier x =>
    have h : AtCourier s i x := h
    refine ⟨?_, ?_, ?_, hun.trans h.unacked, ?_⟩
    · rw [htx]
      exact h.fresh
    · rw [htx]
      exact h.holds
    · intro hm
      obtain ⟨m, hid, hmark⟩ := h.mark hm
      exact ⟨m, hid, marked_within hw hmark⟩
    · rw [hset]
      exact h.settled

namespace AppState

theorem settle_unacked_other (s : AppState) {i j : Nat} (hj : j ≠ i) (how : Settlement) :
    (s.settle i how).unacked j = s.unacked j := by
  unfold settle
  dsimp only
  split
  · rfl
  · split <;> exact Function.update_of_ne hj _ _

theorem settle_unacked_self (s : AppState) (i : Nat) (how : Settlement) :
    (s.settle i how).unacked i = none := by
  unfold settle
  dsimp only
  split
  · next h => exact h
  · split <;> exact Function.update_self _ _ _

theorem settle_queue (s : AppState) (i : Nat) (how : Settlement) (q : String) (body : Content)
    (h : body ∈ s.queue q) : body ∈ (s.settle i how).queue q := by
  unfold settle
  dsimp only
  split
  · exact h
  · split
    · by_cases hq : q = processQueue
      · subst hq
        simpa [enqueue] using Or.inl h
      · simpa [enqueue, hq] using h
    · exact h

theorem settle_requeued {s : AppState} {i : Nat} {body : Content} (h : s.unacked i = some body) :
    body ∈ (s.settle i (.nack true)).queue processQueue := by
  simp [settle, h, enqueue]

theorem exec_unacked {s s' : AppState} {i : Nat} {c : AppChoice} {o : AppOp}
    {r : Except Thrown o.Ans} (h : s.exec i c o = some (r, s')) (ho : ∀ how, o ≠ .settle how) :
    s'.unacked = s.unacked ∧ s'.settled = s.settled := by
  cases o with
  | sql q =>
    obtain ⟨_, _, _, _, rfl⟩ := exec_sql h
    exact ⟨rfl, rfl⟩
  | sendToQueue m =>
    rcases exec_sendToQueue h with ⟨_, rfl⟩ | ⟨_, rfl⟩ | ⟨_, rfl⟩ <;> exact ⟨rfl, rfl⟩
  | settle how => exact absurd rfl (ho how)
  | channelReady | publishStatusChanged | randomUUID | dateNow =>
    obtain ⟨rfl, rfl⟩ := Prod.mk.inj (Option.some.inj h)
    exact ⟨rfl, rfl⟩

theorem exec_queue {s s' : AppState} {i : Nat} {c : AppChoice} {o : AppOp}
    {r : Except Thrown o.Ans} (h : s.exec i c o = some (r, s')) (q : String) (body : Content)
    (hb : body ∈ s.queue q) : body ∈ s'.queue q := by
  have hhand : ∀ m : Published, body ∈ (s.handOver i m).queue q := by
    intro m
    by_cases hq : q = m.queue
    · subst hq
      simpa [handOver, enqueue] using Or.inl hb
    · simpa [handOver, enqueue, hq] using hb
  cases o with
  | sql o =>
    obtain ⟨_, _, _, _, rfl⟩ := exec_sql h
    exact hb
  | sendToQueue m =>
    rcases exec_sendToQueue h with ⟨_, rfl⟩ | ⟨_, rfl⟩ | ⟨_, rfl⟩
    · exact hhand m
    · exact hhand m
    · exact hb
  | settle how =>
    obtain ⟨rfl, rfl⟩ := Prod.mk.inj (Option.some.inj h)
    exact settle_queue s i how q body hb
  | channelReady | publishStatusChanged | randomUUID | dateNow =>
    obtain ⟨rfl, rfl⟩ := Prod.mk.inj (Option.some.inj h)
    exact hb

end AppState

theorem settlements_settle (s : AppState) (i j : Nat) (how : Settlement) :
    settlements (s.settle i how) j = settlements s j ++ if i = j then [how] else [] := by
  rw [settlements, AppState.settle_settled, settlements, List.filter_append, List.map_append]
  by_cases hj : i = j
  · simp [hj]
  · simp [hj]

/-! One operation of a worker. -/

theorem exec_growing {s s' : AppState} {i : Nat} {ch : AppChoice} {o : AppOp}
    {r : Except Thrown o.Ans} (h : s.store.Growing) (he : s.exec i ch o = some (r, s'))
    (ho : ∀ t id, o ≠ .sql (.stmt (.delete t id))) :
    s'.store.Growing ∧ s.store.tables.Within s'.store.tables := by
  cases o with
  | sql q =>
    obtain ⟨a, store, hexec, rfl, rfl⟩ := AppState.exec_sql he
    exact h.exec hexec (fun t id hq => ho t id (congrArg AppOp.sql hq))
  | channelReady | randomUUID | dateNow | settle _ | publishStatusChanged _ | sendToQueue _ =>
    rw [AppState.exec_store he (by simp)]
    exact ⟨h, fun _ _ hr => hr⟩

section Worker

variable {s s' : AppState} {i : Nat} {ch : AppChoice} {x : Courier}

theorem AtCourier.moved (h : AtCourier s i x) (hun : s'.unacked = s.unacked)
    (hset : s'.settled = s.settled) {tx : TxState} {mark : Bool}
    (hfresh : tx = .fresh → s'.store.tx i = some ⟨[], false⟩)
    (hholds : ∀ m, tx = .holds m → markerOf x.body = some m ∧ ∃ y, s'.store.tx i = some y ∧
      y.aborted = false ∧ ∃ w ∈ y.writes, w.at .processedMessages m)
    (hmark : mark = true → ∃ m, markerOf x.body = some m ∧ marked s'.store.tables m) :
    AtCourier s' i { x with tx, mark } where
  fresh := hfresh
  holds := hholds
  mark := hmark
  unacked := by
    rw [hun]
    exact h.unacked
  settled := by
    rw [settlements, hset]
    exact h.settled

theorem AtCourier.markKept (h : AtCourier s i x) (hw : s.store.tables.Within s'.store.tables)
    (hm : x.mark = true) : ∃ m, markerOf x.body = some m ∧ marked s'.store.tables m := by
  obtain ⟨m, hid, hmark⟩ := h.mark hm
  exact ⟨m, hid, marked_within hw hmark⟩

theorem AtCourier.unknown (h : AtCourier s i x) (hun : s'.unacked = s.unacked)
    (hset : s'.settled = s.settled) (hw : s.store.tables.Within s'.store.tables) :
    AtCourier s' i { x with tx := .unknown } :=
  h.moved hun hset (by simp) (by simp) (h.markKept hw)

theorem AtCourier.start (h : AtCourier s i x) (hw : s.store.tables.Within s'.store.tables)
    {r : Except Thrown Unit} (he : s.exec i ch (.sql .startTransaction) = some (r, s')) :
    ∃ x', courierNext x (.sql .startTransaction) r x' ∧ AtCourier s' i x' := by
  obtain ⟨a, store, hexec, rfl, rfl⟩ := AppState.exec_sql he
  cases Store.exec_step hexec with
  | startFault => exact ⟨x, rfl, h⟩
  | start =>
    have hmoved : AtCourier { s with store := s.store.start i } i { x with tx := .fresh } :=
      h.moved (by rfl) (by rfl) (fun _ => Store.start_tx_self _ _) (by simp) (h.markKept hw)
    exact ⟨{ x with tx := .fresh }, rfl, hmoved⟩

theorem AtCourier.commit (h : AtCourier s i x) (hgrow : s.store.Growing)
    (hw : s.store.tables.Within s'.store.tables) {r : Except Thrown Unit}
    (he : s.exec i ch (.sql .commitTransaction) = some (r, s')) :
    ∃ x', courierNext x (.sql .commitTransaction) r x' ∧ AtCourier s' i x' := by
  obtain ⟨hun, hset⟩ := AppState.exec_unacked he (by simp)
  obtain ⟨a, store, hexec, rfl, rfl⟩ := AppState.exec_sql he
  cases a with
  | error e => exact ⟨_, rfl, h.unknown hun hset hw⟩
  | ok u =>
    refine ⟨_, rfl, h.moved hun hset (by simp) (by simp) ?_⟩
    intro hmark
    rcases Bool.or_eq_true _ _ ▸ hmark with hmark | hheld
    · exact h.markKept hw hmark
    · cases htx : x.tx with
      | unknown | fresh => simp [htx] at hheld
      | holds m =>
        obtain ⟨hid, y, hy, ha, w, hwm, hat⟩ := h.holds m htx
        refine ⟨m, hid, ?_⟩
        have htables : store.tables = s.store.tables.replay y.writes :=
          Store.exec_commit_ok hexec hy ha
        obtain ⟨row, hrow, hlook⟩ := Tables.lookup_replay_written ⟨w, hwm, hat⟩
        rw [marked, htables, hlook]
        exact hgrow i y hy _ hrow

theorem AtCourier.stmt (h : AtCourier s i x) (hw : s.store.tables.Within s'.store.tables)
    {q : Stmt schema} {r : Except Thrown q.Ans} (he : s.exec i ch (.sql (.stmt q)) = some (r, s')) :
    (∀ a, r = .ok a →
        AtCourier s' i (match x.tx with | .holds _ => x | _ => { x with tx := .unknown })) ∧
      AtCourier s' i { x with tx := .unknown } := by
  obtain ⟨hun, hset⟩ := AppState.exec_unacked he (by simp)
  refine ⟨?_, h.unknown hun hset hw⟩
  rintro a rfl
  obtain ⟨b, store, hexec, hb, rfl⟩ := AppState.exec_sql he
  cases htx : x.tx with
  | unknown | fresh => exact h.unknown hun hset hw
  | holds m =>
    cases b with
    | error e => cases hb
    | ok b =>
      obtain ⟨hid, y, hy, ha, w, hwm, hat⟩ := h.holds m htx
      obtain ⟨ws, hy'⟩ := Store.exec_stmt_ok hexec hy
      refine h.moved hun hset (by simp [htx]) ?_ (h.markKept hw)
      intro m' hm'
      obtain rfl : m = m' := by simpa [htx] using hm'
      exact ⟨hid, _, hy', ha, w, List.mem_append_left _ hwm, hat⟩

theorem AtCourier.insertMarker (h : AtCourier s i x) (hw : s.store.tables.Within s'.store.tables)
    {id : Option Uuid} {row : Nat → ProcessedMessage} {r : Except Thrown (Uuid × ProcessedMessage)}
    (ha : courierAllowed x (.sql (.stmt (.insert .processedMessages id row))))
    (he : s.exec i ch (.sql (.stmt (.insert .processedMessages id row))) = some (r, s')) :
    ∃ x', courierNext x (.sql (.stmt (.insert .processedMessages id row))) r x' ∧
      AtCourier s' i x' := by
  obtain ⟨hfresh, m, rfl, hid⟩ := ha
  obtain ⟨hun, hset⟩ := AppState.exec_unacked he (by simp)
  have htx := h.fresh hfresh
  obtain ⟨b, store, hexec, rfl, rfl⟩ := AppState.exec_sql he
  cases b with
  | ok b =>
    refine ⟨{ x with tx := .holds m }, ⟨m, rfl, rfl⟩, h.moved hun hset (by simp) ?_ (h.markKept hw)⟩
    rintro m' ⟨⟩
    have hb : b.1 = m := (Store.exec_insert_ok hexec).2 m rfl
    exact ⟨hid, _, Store.exec_insert_tx hexec htx, rfl, ⟨.processedMessages, b.1, some b.2⟩,
      List.mem_singleton_self _, rfl, hb⟩
  | error e =>
    by_cases hu : e = .uniqueViolation
    · subst hu
      have hsome := Store.exec_insert_unique (fun _ => rfl) (fun r hr => by
        obtain ⟨_, _, hv⟩ := Option.bind_eq_some_iff.mp hr
        unfold varchar at hv
        split at hv <;> cases hv) hexec
      rw [Store.view_some htx, Tables.replay_nil] at hsome
      exact ⟨{ x with tx := .unknown, mark := true }, rfl, h.moved hun hset (by simp) (by simp)
        (fun _ => ⟨m, hid, marked_within hw hsome⟩)⟩
    · refine ⟨{ x with tx := .unknown }, ?_, h.unknown hun hset hw⟩
      cases e with
      | uniqueViolation => exact absurd rfl hu
      | _ => rfl

theorem AtCourier.settle (h : AtCourier s i x) (hs : x.settled = false) {how : Settlement}
    (ha : courierAllowed x (.settle how)) {r : Except Thrown Unit}
    (he : s.exec i ch (.settle how) = some (r, s')) :
    ∃ x', courierNext x (.settle how) r x' ∧ AtCourier s' i x' := by
  obtain ⟨rfl, rfl⟩ := Prod.mk.inj (Option.some.inj he)
  have hnone : settlements s i = [] := by simpa [hs] using h.settled
  refine ⟨{ x with settled := true }, rfl, ?_, ?_, ?_, ?_, ?_⟩
  · simpa using h.fresh
  · simpa using h.holds
  · simpa using h.mark
  · simpa using AppState.settle_unacked_self s i how
  · rw [if_pos rfl, settlements_settle, hnone, if_pos rfl, List.nil_append]
    rcases ha with rfl | ⟨rfl, _⟩
    · exact .inr rfl
    · exact .inl rfl

theorem AtCourier.exec (h : AtCourier s i x) (hgrow : s.store.Growing) (hs : x.settled = false)
    {o : AppOp} {r : Except Thrown o.Ans} (ha : courierAllowed x o)
    (he : s.exec i ch o = some (r, s')) (hw : s.store.tables.Within s'.store.tables) :
    ∃ x', courierNext x o r x' ∧ AtCourier s' i x' := by
  have hother : (∀ q, o ≠ .sql q) → (∀ how, o ≠ .settle how) → ∀ released,
      AtCourier s' i { x with released } := by
    intro hsql hsettle released
    obtain ⟨hun, hset⟩ := AppState.exec_unacked he hsettle
    have hstore := AppState.exec_store he hsql
    have hmoved : AtCourier s' i { x with tx := x.tx, mark := x.mark } :=
      h.moved hun hset (by rw [hstore]; exact h.fresh) (by rw [hstore]; exact h.holds)
        (by rw [hstore]; exact h.mark)
    exact ⟨hmoved.fresh, hmoved.holds, hmoved.mark, hmoved.unacked, hmoved.settled⟩
  cases o with
  | sql q =>
    cases q with
    | startTransaction => exact h.start hw he
    | commitTransaction => exact h.commit hgrow hw he
    | rollbackTransaction =>
      obtain ⟨hun, hset⟩ := AppState.exec_unacked he (by simp)
      exact ⟨{ x with tx := .unknown }, by cases r <;> rfl, h.unknown hun hset hw⟩
    | stmt q =>
      have hgeneric := h.stmt hw he
      cases q with
      | insert t id row =>
        cases t with
        | processedMessages => exact h.insertMarker hw ha he
        | _ =>
          cases r with
          | ok a => exact ⟨_, rfl, hgeneric.1 a rfl⟩
          | error e => exact ⟨_, rfl, hgeneric.2⟩
      | malformed e =>
        cases r with
        | ok a => exact nomatch (show Empty from a)
        | error e' =>
          refine ⟨_, ?_, hgeneric.2⟩
          obtain ⟨b, store, hexec, hb, rfl⟩ := AppState.exec_sql he
          cases b with
          | ok b => cases hb
          | error b =>
            cases hb
            cases b with
            | uniqueViolation => exact ⟨rfl, Store.exec_malformed_unique hexec⟩
            | _ => rfl
      | delete t id => exact ha.elim
      | select t cond | selectForUpdate t id | update t id set =>
        cases r with
        | ok a => exact ⟨_, rfl, hgeneric.1 a rfl⟩
        | error e => exact ⟨_, rfl, hgeneric.2⟩
  | settle how => exact h.settle hs ha he
  | sendToQueue m =>
    rcases AppState.exec_sendToQueue he with ⟨rfl, rfl⟩ | ⟨rfl, rfl⟩ | ⟨hr, rfl⟩
    · exact ⟨_, rfl, hother (by simp) (by simp) true⟩
    · exact ⟨x, rfl, hother (by simp) (by simp) x.released⟩
    · refine ⟨x, ?_, hother (by simp) (by simp) x.released⟩
      cases r with
      | error e => rfl
      | ok b =>
        cases b with
        | true => exact absurd rfl hr
        | false => rfl
  | channelReady | randomUUID | dateNow | publishStatusChanged _ =>
    exact ⟨x, by cases r <;> rfl, hother (by simp) (by simp) x.released⟩

end Worker

/-! One operation of any thread. -/

section Step

variable {s s' : AppState} {γ : Nat → Role} {i : Nat} {ch : AppChoice} {o : AppOp}
  {r : Except Thrown o.Ans} {g : Role}

theorem exec_other (he : s.exec i ch o = some (r, s')) {j : Nat} (hj : j ≠ i) :
    s'.store.tx j = s.store.tx j ∧ s'.unacked j = s.unacked j ∧
      settlements s' j = settlements s j := by
  refine ⟨?_, ?_⟩
  · cases o with
    | sql q =>
      obtain ⟨a, store, hexec, rfl, rfl⟩ := AppState.exec_sql he
      exact Store.exec_tx_other hexec hj
    | channelReady | randomUUID | dateNow | settle _ | publishStatusChanged _ | sendToQueue _ =>
      rw [AppState.exec_store he (by simp)]
  · by_cases ho : ∃ how, o = .settle how
    · obtain ⟨how, rfl⟩ := ho
      obtain ⟨rfl, rfl⟩ := Prod.mk.inj (Option.some.inj he)
      refine ⟨AppState.settle_unacked_other s hj how, ?_⟩
      rw [settlements_settle, if_neg (Ne.symm hj), List.append_nil]
    · obtain ⟨hun, hset⟩ := AppState.exec_unacked he (fun how h => ho ⟨how, h⟩)
      exact ⟨by rw [hun], by rw [settlements, hset, settlements]⟩

theorem custody_exec (h : Custody s γ) (ha : custodyRules.allowed (γ i) o)
    (he : s.exec i ch o = some (r, s')) :
    ∃ g, custodyRules.next (γ i) o r g ∧ Custody s' (Function.update γ i g) ∧
      s.store.tables.Within s'.store.tables := by
  have hdelete : ∀ t id, o ≠ .sql (.stmt (.delete t id)) := by
    rintro t id rfl
    cases hg : γ i with
    | idle =>
      rw [hg] at ha
      exact ha
    | caller b =>
      rw [hg] at ha
      exact ha
    | courier x =>
      rw [hg] at ha
      exact ha.2
  obtain ⟨hgrow, hw⟩ := exec_growing h.growing he hdelete
  have hrole : ∃ g, custodyRules.next (γ i) o r g ∧ AtRole s' i g := by
    have hat := h.role i
    cases hg : γ i with
    | idle =>
      rw [hg] at ha
      exact ha.elim
    | caller b =>
      rw [hg] at hat
      refine ⟨.caller (opens b o r), rfl, ?_⟩
      by_cases ho : ∃ how, o = .settle how
      · obtain ⟨how, rfl⟩ := ho
        obtain ⟨rfl, rfl⟩ := Prod.mk.inj (Option.some.inj he)
        exact AppState.settle_unacked_self s i how
      · rw [AtRole, (AppState.exec_unacked he (fun how h => ho ⟨how, h⟩)).1]
        exact hat
    | courier x =>
      rw [hg] at ha hat
      obtain ⟨x', hn, hx'⟩ := hat.exec h.growing ha.1 ha.2 he hw
      exact ⟨.courier x', ⟨x', rfl, hn⟩, hx'⟩
  obtain ⟨g, hn, hg⟩ := hrole
  refine ⟨g, hn, ⟨hgrow, ?_⟩, hw⟩
  intro j
  by_cases hj : j = i
  · subst hj
    rwa [Function.update_self]
  · rw [Function.update_of_ne hj]
    obtain ⟨htx, hun, hset⟩ := exec_other he hj
    exact (h.role j).frame htx hun hset hw

theorem courier_released {x x' : Courier} (hat : AtCourier s i x) (hs : x.settled = false)
    (hr : x.released = false) (ha : courierAllowed x o) (hn : courierNext x o r x')
    (he : s.exec i ch o = some (r, s')) {M : String} (hM : hasId M x.body) :
    (x'.body = x.body ∧ x'.settled = false ∧ x'.released = false) ∨
      (∃ q ∈ [AppState.processQueue, AppState.retryQueue, AppState.dlqQueue],
        ∃ body ∈ s'.queue q, hasId M body) ∨
      ∃ m, uuidIn M = some m ∧ marked s'.store.tables m := by
  have hkept : ∀ tx mark, x' = { x with tx, mark } →
      x'.body = x.body ∧ x'.settled = false ∧ x'.released = false := by
    rintro tx mark rfl
    exact ⟨rfl, hs, hr⟩
  cases o with
  | sendToQueue m =>
    rcases AppState.exec_sendToQueue he with ⟨rfl, rfl⟩ | ⟨rfl, rfl⟩ | ⟨hne, rfl⟩
    · refine .inr (.inl ⟨m.queue, ?_, .json m.payload.stringified, ?_, ha.2 M hM⟩)
      · rcases ha.1 with hq | hq <;> simp [hq]
      · simp [AppState.handOver, AppState.enqueue]
    · exact .inl (hkept x.tx x.mark hn)
    · refine .inl (hkept x.tx x.mark ?_)
      cases r with
      | error e => exact hn
      | ok b =>
        cases b with
        | true => exact absurd rfl hne
        | false => exact hn
  | settle how =>
    obtain ⟨rfl, rfl⟩ := Prod.mk.inj (Option.some.inj he)
    rcases ha with rfl | ⟨rfl, hrel | hmark⟩
    · refine .inr (.inl ⟨AppState.processQueue, by simp, x.body, ?_, hM⟩)
      exact AppState.settle_requeued (by simpa [hs] using hat.unacked)
    · rw [hr] at hrel
      cases hrel
    · obtain ⟨m, hid, hm⟩ := hat.mark hmark
      refine .inr (.inr ⟨m, ?_, by simpa using hm⟩)
      rw [← markerOf_hasId hM, hid]
  | channelReady | randomUUID | dateNow | publishStatusChanged _ =>
    refine .inl (hkept x.tx x.mark ?_)
    cases r <;> exact hn
  | sql q =>
    obtain ⟨tx, mark, hx'⟩ := courierNext_sql hn
    exact .inl (hkept tx mark hx')

theorem safe_exec (h : Custody s γ) (ha : custodyRules.allowed (γ i) o)
    (he : s.exec i ch o = some (r, s')) (hn : custodyRules.next (γ i) o r g)
    (hw : s.store.tables.Within s'.store.tables) {M : String} (hM : Safe M s γ) :
    Safe M s' (Function.update γ i g) := by
  rcases hM with ⟨q, hq, body, hb, hid⟩ | ⟨j, x, hx, hid, hs, hr⟩ | ⟨m, hid, hm⟩
  · exact .inl ⟨q, hq, body, AppState.exec_queue he q body hb, hid⟩
  · by_cases hj : j = i
    · subst hj
      have hat := h.role j
      rw [hx] at hat ha hn
      obtain ⟨x', rfl, hn⟩ := hn
      rcases courier_released hat hs hr ha.2 hn he hid with ⟨hb, hs', hr'⟩ | hq | hm
      · exact .inr (.inl ⟨j, x', Function.update_self _ _ _, hb ▸ hid, hs', hr'⟩)
      · exact .inl hq
      · exact .inr (.inr hm)
    · exact .inr (.inl ⟨j, x, (Function.update_of_ne hj _ _).trans hx, hid, hs, hr⟩)
  · exact .inr (.inr ⟨m, hid, marked_within hw hm⟩)

end Step

def Guarded (Ms : String → Prop) (s : AppState) (γ : Nat → Role) : Prop :=
  Custody s γ ∧ ∀ M, Ms M → Safe M s γ

theorem custody_sound (Ms : String → Prop) : custodyRules.Sound app Always (Guarded Ms) where
  exec {s γ i ch o r s'} hinv _ ha he := by
    obtain ⟨g, hn, hc, hw⟩ := custody_exec hinv.1 ha he
    exact ⟨g, hn, hc, fun M hM => safe_exec hinv.1 ha he hn hw (hinv.2 M hM)⟩

def Returned (n : Nat) (i : Nat) (_ : Unit) (g : Role) : Prop := n ≤ i → ∃ body, IsSettled body g

/-- What holds in every state that callers below `n` and workers reach. -/
structure Watched (Ms : String → Prop) (n : Nat) (c : Config app Unit) (γ : Nat → Role) : Prop where
  follows : Follows custodyRules (Guarded Ms) (Returned n) (fun _ _ _ => True) c γ
  idle : ∀ i, c.thread i = none → γ i = .idle
  worker : ∀ i, n ≤ i → ∀ b, γ i ≠ .caller b

section System

variable {Ms : String → Prop} {n : Nat} {c c' : Config app Unit} {γ : Nat → Role}

/-- One thread goes on as `p`, and the others are where they were. -/
theorem Watched.update (h : Watched Ms n c γ) {i : Nat} {s' : AppState} {p : App Unit} {g : Role}
    (hinv : Guarded Ms s' (Function.update γ i g))
    (hp : p.wp custodyRules (Returned n i) (fun _ _ => True) g)
    (hg : n ≤ i → ∀ b, g ≠ .caller b) :
    Watched Ms n ⟨s', Function.update c.thread i (some p)⟩ (Function.update γ i g) := by
  refine ⟨⟨hinv, ?_⟩, ?_, ?_⟩
  · intro j q hq
    by_cases hj : j = i
    · subst hj
      simp only [Function.update_self, Option.some.injEq] at hq ⊢
      exact hq ▸ hp
    · simp only [Function.update_of_ne hj] at hq ⊢
      exact h.follows.thread j q hq
  · intro j hj
    by_cases hji : j = i
    · subst hji
      simp at hj
    · simp only [Function.update_of_ne hji] at hj ⊢
      exact h.idle j hj
  · intro j hj
    by_cases hji : j = i
    · subst hji
      rw [Function.update_self]
      exact hg hj
    · rw [Function.update_of_ne hji]
      exact h.worker j hj

theorem Watched.step (h : Watched Ms n c γ) {i : Nat} {ch : AppChoice}
    (hs : c.step i ch = some c') : ∃ γ', Watched Ms n c' γ' := by
  obtain ⟨o, k, r, s', ht, he, rfl⟩ := Config.step_cases hs
  have hwp := h.follows.thread i _ ht
  obtain ⟨g, hn, hinv⟩ := (custody_sound Ms).exec h.follows.inv trivial hwp.1 he
  refine ⟨_, h.update hinv (hwp.2 r g hn) ?_⟩
  rintro hj b rfl
  cases hg : γ i with
  | idle =>
    rw [hg] at hn
    exact hn
  | caller b' => exact h.worker i hj b' hg
  | courier x =>
    rw [hg] at hn
    obtain ⟨_, hx, _⟩ := hn
    cases hx

theorem Watched.queues (h : Watched Ms n c γ) {s' : AppState}
    (hstore : s'.store = c.shared.store) (hun : s'.unacked = c.shared.unacked)
    (hset : s'.settled = c.shared.settled)
    (hqueue : ∀ q ∈ [AppState.processQueue, AppState.retryQueue, AppState.dlqQueue],
      ∀ body ∈ c.shared.queue q, ∃ q' ∈ [AppState.processQueue, AppState.retryQueue,
        AppState.dlqQueue], body ∈ s'.queue q') : Watched Ms n { c with shared := s' } γ := by
  refine ⟨⟨⟨⟨?_, ?_⟩, ?_⟩, h.follows.thread⟩, h.idle, h.worker⟩
  · rw [hstore]
    exact h.follows.inv.1.growing
  · intro i
    refine (h.follows.inv.1.role i).frame (by rw [hstore]) (by rw [hun])
      (by rw [settlements, hset, settlements]) ?_
    rw [hstore]
    exact fun _ _ hr => hr
  · intro M hM
    rcases h.follows.inv.2 M hM with ⟨q, hq, body, hb, hid⟩ | hheld | ⟨m, hid, hm⟩
    · obtain ⟨q', hq', hb'⟩ := hqueue q hq body hb
      exact .inl ⟨q', hq', body, hb', hid⟩
    · exact .inr (.inl hheld)
    · exact .inr (.inr ⟨m, hid, by rwa [hstore]⟩)

theorem mem_eraseIdx_or {l : List Content} {k : Nat} {body : Content} (hk : l[k]? = some body)
    {b : Content} (hb : b ∈ l) : b = body ∨ b ∈ l.eraseIdx k := by
  obtain ⟨hlt, rfl⟩ := List.getElem?_eq_some_iff.mp hk
  have := (List.getElem_cons_eraseIdx_perm hlt).mem_iff.mpr hb
  exact List.mem_cons.mp this

theorem Watched.deliver (h : Watched Ms n c γ) {config : WorkerConfig} {describe : Thrown → String}
    {i k : Nat} {body : Content} (hi : c.thread i = none)
    (hk : (c.shared.queue AppState.processQueue)[k]? = some body) :
    Watched Ms n ⟨c.shared.deliver i k body,
      Function.update c.thread i (some (onMessage config describe processOrderMessage body))⟩
      (Function.update γ i (.courier (.begin body))) := by
  have hidle := h.idle i hi
  have hat : AtRole c.shared i .idle := hidle ▸ h.follows.inv.1.role i
  refine h.update ⟨⟨h.follows.inv.1.growing, ?_⟩, ?_⟩ ?_ (by simp)
  · intro j
    by_cases hj : j = i
    · subst hj
      rw [Function.update_self]
      exact ⟨by simp [Courier.begin], by simp [Courier.begin], by simp [Courier.begin],
        by simp [AppState.deliver, Courier.begin], hat.2⟩
    · rw [Function.update_of_ne hj]
      exact (h.follows.inv.1.role j).frame rfl (Function.update_of_ne hj _ _) rfl
        (fun _ _ hr => hr)
  · intro M hM
    have hholder : hasId M body → Safe M (c.shared.deliver i k body)
        (Function.update γ i (.courier (.begin body))) :=
      fun hid => .inr (.inl ⟨i, _, Function.update_self _ _ _, hid, rfl, rfl⟩)
    rcases h.follows.inv.2 M hM with ⟨q, hq, b, hb, hid⟩ | ⟨j, x, hx, hid, hs, hr⟩ | hm
    · by_cases hqp : q = AppState.processQueue
      · subst hqp
        rcases mem_eraseIdx_or hk hb with rfl | hb
        · exact hholder hid
        · exact .inl ⟨AppState.processQueue, hq, b,
            by simpa [AppState.deliver, AppState.takeFrom] using hb, hid⟩
      · exact .inl ⟨q, hq, b, by simpa [AppState.deliver, AppState.takeFrom, hqp] using hb, hid⟩
    · have hj : j ≠ i := by
        rintro rfl
        rw [hidle] at hx
        cases hx
      exact .inr (.inl ⟨j, x, (Function.update_of_ne hj _ _).trans hx, hid, hs, hr⟩)
    · exact .inr (.inr hm)
  · exact Prog.wp_mono (wp_onMessage config describe body) (fun _ _ hset _ => ⟨body, hset⟩)
      (fun _ _ _ => trivial)

theorem Watched.crash (h : Watched Ms n c γ) {i : Nat} {o : AppOp}
    {k : Except Thrown o.Ans → App Unit} (hi : c.thread i = some (.op o k)) :
    ∃ γ', Watched Ms n ⟨c.shared.crash i,
      Function.update c.thread i (some (.raise .channelClosed))⟩ γ' := by
  have hat := h.follows.inv.1.role i
  have hallowed := (h.follows.thread i _ hi).1
  have hother : ∀ j, j ≠ i → AtRole (c.shared.crash i) j (γ j) := by
    intro j hj
    refine (h.follows.inv.1.role j).frame ?_ ?_ ?_ ?_ <;> unfold AppState.crash <;> split
    · exact Store.close_tx_other _ hj
    · exact Store.close_tx_other _ hj
    · rfl
    · exact Function.update_of_ne hj _ _
    · rfl
    · rfl
    · exact fun _ _ hr => hr
    · exact fun _ _ hr => hr
  have hgrow : (c.shared.crash i).store.Growing := by
    unfold AppState.crash
    split <;> exact h.follows.inv.1.growing.close i
  have htables : (c.shared.crash i).store.tables = c.shared.store.tables := by
    unfold AppState.crash
    split <;> rfl
  have hset : settlements (c.shared.crash i) i = settlements c.shared i := by
    unfold AppState.crash
    split <;> rfl
  cases hg : γ i with
  | idle =>
    rw [hg] at hallowed
    exact hallowed.elim
  | caller b =>
    rw [hg] at hat
    have hnone : c.shared.unacked i = none := hat
    refine ⟨_, h.update (g := .caller b) ⟨⟨hgrow, ?_⟩, ?_⟩ trivial
      (fun hj => absurd hg (h.worker i hj b))⟩
    · intro j
      by_cases hj : j = i
      · subst hj
        rw [Function.update_self]
        simp [AtRole, AppState.crash, hnone]
      · rw [Function.update_of_ne hj]
        exact hother j hj
    · intro M hM
      have hupdate : Function.update γ i (.caller b) = γ := by rw [← hg, Function.update_eq_self]
      rw [hupdate]
      rcases h.follows.inv.2 M hM with hq | hheld | ⟨m, hid, hm⟩
      · exact .inl (by simpa [AppState.crash, hnone] using hq)
      · exact .inr (.inl hheld)
      · exact .inr (.inr ⟨m, hid, by rwa [htables]⟩)
  | courier x =>
    rw [hg] at hat hallowed
    have hun : c.shared.unacked i = some x.body := by
      simpa [hallowed.1] using (show AtCourier c.shared i x from hat).unacked
    have hnone : settlements c.shared i = [] := by
      simpa [hallowed.1] using (show AtCourier c.shared i x from hat).settled
    have hqueue : ∀ q b, b ∈ c.shared.queue q → b ∈ (c.shared.crash i).queue q := by
      intro q b hb
      by_cases hq : q = AppState.processQueue
      · subst hq
        simpa [AppState.crash, hun, AppState.enqueue] using Or.inl hb
      · simpa [AppState.crash, hun, AppState.enqueue, hq] using hb
    refine ⟨_, h.update (g := .idle) ⟨⟨hgrow, ?_⟩, ?_⟩ trivial (by simp)⟩
    · intro j
      by_cases hj : j = i
      · subst hj
        rw [Function.update_self]
        exact ⟨by simp [AppState.crash, hun], hset.trans hnone⟩
      · rw [Function.update_of_ne hj]
        exact hother j hj
    · intro M hM
      rcases h.follows.inv.2 M hM with ⟨q, hq, b, hb, hid⟩ | ⟨j, y, hy, hid, hs, hr⟩ | ⟨m, hid, hm⟩
      · exact .inl ⟨q, hq, b, hqueue q b hb, hid⟩
      · by_cases hj : j = i
        · subst hj
          obtain rfl : x = y := by simpa using hg.symm.trans hy
          exact .inl ⟨AppState.processQueue, by simp, x.body,
            by simp [AppState.crash, hun, AppState.enqueue], hid⟩
        · exact .inr (.inl ⟨j, y, (Function.update_of_ne hj _ _).trans hy, hid, hs, hr⟩)
      · exact .inr (.inr ⟨m, hid, by rwa [htables]⟩)

theorem Watched.broker (h : Watched Ms n c γ) {config : WorkerConfig} {describe : Thrown → String}
    {e : BrokerEvent} (hs : brokerStep config describe c e = some c') :
    ∃ γ', Watched Ms n c' γ' := by
  cases e with
  | arrive body =>
    obtain rfl := Option.some.inj hs
    refine ⟨γ, h.queues rfl rfl rfl ?_⟩
    intro q hq b hb
    by_cases hqp : q = AppState.processQueue
    · subst hqp
      exact ⟨_, hq, by simpa [AppState.enqueue] using Or.inl hb⟩
    · exact ⟨q, hq, by simpa [AppState.enqueue, hqp] using hb⟩
  | deliver i k =>
    simp only [brokerStep] at hs
    split at hs
    · next body hi hk =>
      obtain rfl := Option.some.inj hs
      exact ⟨_, h.deliver hi hk⟩
    · cases hs
  | step i choice => exact h.step hs
  | crash i =>
    simp only [brokerStep] at hs
    split at hs
    · next o k hi =>
      obtain rfl := Option.some.inj hs
      exact h.crash hi
    · cases hs
  | expire k =>
    simp only [brokerStep] at hs
    split at hs
    · next body hk =>
      obtain rfl := Option.some.inj hs
      refine ⟨γ, h.queues rfl rfl rfl ?_⟩
      intro q hq b hb
      by_cases hqr : q = AppState.retryQueue
      · subst hqr
        rcases mem_eraseIdx_or hk hb with rfl | hb
        · exact ⟨AppState.processQueue, by simp, by simp [AppState.enqueue]⟩
        · refine ⟨AppState.retryQueue, hq, ?_⟩
          have hne : AppState.retryQueue ≠ AppState.processQueue := by decide
          simpa [AppState.enqueue, AppState.takeFrom, hne] using hb
      · refine ⟨q, hq, ?_⟩
        by_cases hqp : q = AppState.processQueue
        · subst hqp
          have hne : AppState.processQueue ≠ AppState.retryQueue := by decide
          simpa [AppState.enqueue, AppState.takeFrom, hne] using Or.inl hb
        · simpa [AppState.enqueue, AppState.takeFrom, hqp, hqr] using hb
    · cases hs

theorem Watched.run (h : Watched Ms n c γ) {config : WorkerConfig} {describe : Thrown → String}
    {es : List BrokerEvent} (hr : brokerRun config describe c es = some c') :
    ∃ γ', Watched Ms n c' γ' := by
  induction es generalizing c γ with
  | nil =>
    obtain rfl := Option.some.inj hr
    exact ⟨γ, h⟩
  | cons e es ih =>
    obtain ⟨d, hd, hrest⟩ := Option.bind_eq_some_iff.mp hr
    obtain ⟨γ', hγ'⟩ := h.broker hd
    exact ih hγ' hrest

end System

theorem Watched.start {s : AppState} (hs : s.Quiet) (hun : ∀ i, s.unacked i = none)
    (calls : List Operation) : Watched (fun _ => False) calls.length (consuming s calls)
      (fun i => if i < calls.length then .caller false else .idle) := by
  refine ⟨⟨⟨⟨?_, ?_⟩, fun M hM => hM.elim⟩, ?_⟩, ?_, ?_⟩
  · intro i x hx
    have hnone := hs.tx i
    rw [show s.store.tx i = some x from hx] at hnone
    cases hnone
  · intro i
    split
    · exact hun i
    · exact ⟨hun i, by simp [settlements, consuming, hs.settled]⟩
  · intro i p hp
    obtain ⟨call, hcall, rfl⟩ := Option.map_eq_some_iff.mp hp
    obtain ⟨hi, _⟩ := List.getElem?_eq_some_iff.mp hcall
    rw [if_pos hi]
    refine Prog.wp_mono ((tidy_operation call).bind (fun _ => (keeps_pure ()).tidy)).caller ?_
      (fun _ _ h => h)
    exact fun _ _ _ hle => absurd hi (Nat.not_lt.mpr hle)
  · intro i hi
    have hle : calls.length ≤ i := by simpa [consuming] using hi
    rw [if_neg (Nat.not_lt.mpr hle)]
  · intro i hi b
    rw [if_neg (Nat.not_lt.mpr hi)]
    simp

/-- From now on a message that is on `orders.process` is to be found. -/
theorem Watched.guard {Ms : String → Prop} {n : Nat} {c : Config app Unit} {γ : Nat → Role}
    (h : Watched Ms n c γ) {M : String}
    (hM : ∃ body ∈ c.shared.queue AppState.processQueue, hasId M body) :
    Watched (fun M' => M' = M) n c γ := by
  refine ⟨⟨⟨h.follows.inv.1, ?_⟩, h.follows.thread⟩, h.idle, h.worker⟩
  rintro _ rfl
  exact .inl ⟨_, by simp, hM⟩

/-- A message on `orders.process` is never lost before its marker is committed,
and a worker settles its delivery once. -/
theorem message_kept (config : WorkerConfig) (describe : Thrown → String) {s : AppState}
    (hs : s.Quiet) (hun : ∀ i, s.unacked i = none) (calls : List Operation)
    {es es' : List BrokerEvent} {c c' : Config app Unit}
    (h : brokerRun config describe (consuming s calls) es = some c) {M : String}
    (hM : ∃ body ∈ c.shared.queue AppState.processQueue, hasId M body)
    (h' : brokerRun config describe c es' = some c') :
    InSystem M c'.shared ∧ ∀ i, calls.length ≤ i → (settlements c'.shared i).length ≤ 1 ∧
      (c'.thread i = some (.ret ()) →
        settlements c'.shared i = [.ack] ∨ settlements c'.shared i = [.nack true]) := by
  obtain ⟨γ, hγ⟩ := (Watched.start hs hun calls).run h
  obtain ⟨γ', hγ'⟩ := (hγ.guard hM).run h'
  have hcustody := hγ'.follows.inv.1
  refine ⟨(hγ'.follows.inv.2 M rfl).inSystem hcustody, ?_⟩
  intro i hi
  have hat := hcustody.role i
  cases hg : γ' i with
  | caller b => exact absurd hg (hγ'.worker i hi b)
  | idle =>
    rw [hg] at hat
    refine ⟨by simp [hat.2], ?_⟩
    intro hret
    obtain ⟨_, x, hx, _⟩ := hγ'.follows.thread i _ hret hi
    rw [hg] at hx
    cases hx
  | courier x =>
    rw [hg] at hat
    have hset := (show AtCourier c'.shared i x from hat).settled
    constructor
    · split at hset
      · rcases hset with hset | hset <;> simp [hset]
      · simp [hset]
    · intro hret
      obtain ⟨_, y, hy, _, hsettled⟩ := hγ'.follows.thread i _ hret hi
      obtain rfl : x = y := by simpa using hg.symm.trans hy
      rwa [hsettled, if_pos rfl] at hset

def defaults : WorkerConfig := .parse .nan .nan .nan (by decide)

/-- Message 3 is on the queue of a quiet database, no worker has it yet. -/
def arrived : Config app Unit :=
  ⟨(serving (penOrdered .pending)).enqueue AppState.processQueue (.json (.obj (orderMessage 3))),
    (consuming (serving (penOrdered .pending)) []).thread⟩

/-- A delivery of message 3 is lost with its worker, the next one is handled. -/
def redelivered : List BrokerEvent :=
  [.deliver 0 0, .step 0 (tick 0), .step 0 (tick 0), .crash 0, .deliver 1 0] ++
    List.replicate 10 (.step 1 (tick 0))

theorem message_kept_redelivered :
    ∃ c', brokerRun defaults (fun _ => "") (consuming (serving (penOrdered .pending)) [])
        [.arrive (.json (.obj (orderMessage 3)))] = some arrived ∧
      brokerRun defaults (fun _ => "") arrived redelivered = some c' ∧
      InSystem (uuidOut 3) c'.shared ∧ c'.thread 1 = some (.ret ()) ∧
      (settlements c'.shared 1 = [.ack] ∨ settlements c'.shared 1 = [.nack true]) := by
  have hrun : (brokerRun defaults (fun _ => "") arrived redelivered).map (fun c =>
      c.returned 1) = some true := by decide +kernel
  obtain ⟨c', hc', hret⟩ := Option.map_eq_some_iff.mp hrun
  have hp : c'.thread 1 = some (.ret ()) := Config.thread_of_returned hret
  have harrived : brokerRun defaults (fun _ => "") (consuming (serving (penOrdered .pending)) [])
      [.arrive (.json (.obj (orderMessage 3)))] = some arrived := rfl
  have hkept := message_kept defaults (fun _ => "") (serving_quiet (penOrdered_distinct .pending))
    (fun _ => rfl) [] harrived (M := uuidOut 3) ⟨_, List.mem_singleton.mpr rfl, rfl⟩ hc'
  exact ⟨c', harrived, hc', hkept.1, hp, (hkept.2 1 (by simp)).2 hp⟩

end Ecomm
