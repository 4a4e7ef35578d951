import Ecomm.CreateRules
import Ecomm.Custody
import Ecomm.RetryChain

/-! The rules of the two sides of the order queue: a caller of `create`, and a
worker with a delivery, which is known by the marker and the order it names. -/

namespace Ecomm

open Concurrent Sql

def IsProcessed (T : Database) (o : Uuid) : Prop :=
  ∃ row, (T .orders).lookup o = some row ∧ row.status = .processed

def orderNamed : Content → Option Uuid
  | .json v => (uuidParam (v.get "orderId")).toOption
  | .invalid _ => none

/-- The marker and the order that a message names. -/
def Content.names (body : Content) : Option Uuid × Option Uuid := (markerOf body, orderNamed body)

theorem uuidParam_stringified (p : Option Json) :
    (uuidParam (p.map Json.stringified)).toOption = (uuidParam p).toOption := by
  cases p with
  | none => rfl
  | some v => cases v <;> rfl

theorem CopyOf.names {payload copy : Json} {attempt : Nat} (h : CopyOf payload attempt copy) :
    (Content.json copy).names = (Content.json payload).names := by
  have hmarker := h.fields "messageId" (by decide)
  have horder := h.fields "orderId" (by decide)
  simp only [Content.names, markerOf, orderNamed, hmarker, horder, uuidParam_stringified]

theorem Announces.names {m : Published} {u o : Uuid} (h : Announces m u o) :
    (Content.json m.payload.stringified).names = (some u, some o) := by
  simp only [Content.names, markerOf, orderNamed, Json.get_stringified_str h.messageId,
    Json.get_stringified_str h.orderId, uuidParam, uuidIn_uuidOut, Except.toOption]

theorem names_withAttempt (payload : Json) (attempt : Nat) :
    (markerId (Json.setField "attempt" (.num attempt) payload.spread),
      orderRef (Json.setField "attempt" (.num attempt) payload.spread)) =
      (Content.json payload).names := by
  have hmarker : (Json.setField "attempt" (.num attempt) payload.spread).lookup "messageId" =
      payload.get "messageId" := by
    rw [Json.lookup_setField_other _ (by decide),
      Json.lookup_spread (Json.index_ne (c := 'm') (by decide) (by decide))]
  have horder : (Json.setField "attempt" (.num attempt) payload.spread).lookup "orderId" =
      payload.get "orderId" := by
    rw [Json.lookup_setField_other _ (by decide),
      Json.lookup_spread (Json.index_ne (c := 'o') (by decide) (by decide))]
  rw [markerId, orderRef, hmarker, horder]
  rfl

/-! A caller of `create`: it writes pending orders, and its messages announce them. -/

def PlaceOp : AppOp → Prop
  | .sql (.stmt (.insert .orders _ row)) => ∀ now, (row now).status = .pending
  | .sql (.stmt (.insert .processedMessages _ _)) | .sql (.stmt (.update .processedMessages _ _)) =>
    False
  | .sql (.stmt (.update .orders _ _)) | .sql (.stmt (.delete _ _)) => False
  | .sendToQueue m => ∃ u o, Announces m u o
  | .settle _ | .publishStatusChanged _ | .dateNow => False
  | _ => True

def Draft (w : Write schema) : Prop :=
  w.table ≠ .processedMessages ∧
    (w.table = .orders → ∃ id row, w = ⟨.orders, id, some row⟩ ∧ row.status = .pending)

def customerAllowed (g : Session schema) : AppOp → Prop
  | .sql .commitTransaction => ∃ o, g.base .orders o = some none ∧
    ∀ w ∈ g.writes, Draft w ∧ (w.table = .orders → w.id = o)
  | .sql (.stmt q) => q.reads = true ∨ g.tx ≠ none
  | .sendToQueue m => ∃ u o, Announces m u o
  | .settle _ => False
  | _ => True

def customerRules : Rules Unit := ⟨fun _ => customerAllowed, fun _ _ _ _ _ _ => True⟩

theorem place_awaits (call : CreateCall) : call.program.Awaits PlaceOp :=
  awaits_create trivial trivial trivial (fun _ _ => trivial) (fun _ => trivial) (fun _ => trivial)
    (fun _ _ => trivial) (fun _ _ => trivial) (fun _ => trivial) (fun _ h => h) trivial trivial
    (fun _ u o h => ⟨u, o, h⟩) _ _

theorem drafts_learned {g g' : Session schema} {o : AppOp} {r : Except Thrown o.Ans}
    (hl : Learns g o r g') (ho : PlaceOp o) (hg : ∀ w ∈ g.writes, Draft w) :
    ∀ w ∈ g'.writes, Draft w := by
  have hnext : ∀ {q : Op schema} {a : Except SqlError q.Ans}, g.Next q a g' →
      PlaceOp (.sql q) → ∀ w ∈ g'.writes, Draft w := by
    intro q a hn hq w hw
    rcases hn.wrote hw with hold | ⟨t, id, row, j, now, rfl, _, rfl⟩ |
      ⟨t, id, set, now, old, rfl, rfl⟩
    · exact hg w hold
    · cases t with
      | orders => exact ⟨by simp, fun _ => ⟨j, row now, rfl, hq now⟩⟩
      | processedMessages => exact hq.elim
      | users | products | orderItems => exact ⟨by simp, by simp⟩
    · cases t with
      | orders | processedMessages => exact hq.elim
      | users | products | orderItems => exact ⟨by simp, by simp⟩
  cases o with
  | sql q =>
    cases r with
    | ok a => exact hnext hl ho
    | error e =>
      cases e with
      | sql e => exact hnext hl ho
      | _ => exact hl.elim
  | _ =>
    have he : g' = g := by cases r <;> exact hl
    rwa [he]

theorem wp_customer (call : CreateCall) :
    call.program.wp customerRules.protocol (fun _ _ => True) (fun _ _ => True) (.closed, ()) := by
  have hcreate := (place_awaits call).wp_only (wp_create call)
  refine Prog.wp_mono (Prog.wp_simulation (R := fun g g' => g.1 = g'.1 ∧ ∀ w ∈ g.1.writes, Draft w)
    ?_ ⟨rfl, by simp [Session.closed, Session.writes]⟩ hcreate) (fun _ _ _ => trivial)
    (fun _ _ _ => trivial)
  rintro ⟨g, x⟩ ⟨_, u⟩ o ⟨rfl, hg⟩ ⟨⟨hsession, hcreates⟩, hplaces⟩
  have hallowed : customerAllowed g o := by
    cases o with
    | sql q =>
      cases q with
      | commitTransaction =>
        obtain ⟨_, o, haccount⟩ := hcreates
        exact ⟨o, haccount.isNew, fun w hw => ⟨hg w hw, haccount.orders w hw⟩⟩
      | stmt q => exact hcreates
      | startTransaction | rollbackTransaction => trivial
    | sendToQueue m => exact hplaces
    | settle how => exact hplaces
    | channelReady | randomUUID | dateNow | publishStatusChanged _ => trivial
  refine ⟨⟨hsession, hallowed⟩, ?_⟩
  rintro r ⟨g', u'⟩ ⟨hl, _⟩
  exact ⟨(g', createNext x g o r), ⟨hl, rfl⟩, rfl, drafts_learned hl hplaces hg⟩

/-! A worker with a delivery. -/

/-- `found` says that the worker has read its order, and `known` that it was
processed when it was read. -/
structure Clerk where
  names : Option Uuid × Option Uuid
  found : Bool
  known : Bool

def Clerk.begin (body : Content) : Clerk := ⟨body.names, false, false⟩

/-- The transaction holds marker `m` of order `o`, and writes nothing but the
marker and the processed order. -/
structure Entered (m o : Uuid) (g : Session schema) : Prop where
  isOpen : g.tx = some ⟨g.writes, false⟩
  isNew : g.base .processedMessages m = some none
  marker : ∃ row : ProcessedMessage, ⟨.processedMessages, m, some row⟩ ∈ g.writes
  writes : ∀ w ∈ g.writes,
    (∃ row : ProcessedMessage, w = ⟨.processedMessages, m, some row⟩ ∧ row.orderId = o) ∨
      ∃ row : Order, w = ⟨.orders, o, some row⟩ ∧ row.status = .processed

/-- The order is processed already, or the transaction makes it so. -/
def Clerk.Done (x : Clerk) (o : Uuid) (g : Session schema) : Prop :=
  x.known = true ∨ ∃ row : Order, ⟨.orders, o, some row⟩ ∈ g.writes

def clerkAllowed (x : Clerk) (g : Session schema) : AppOp → Prop
  | .sql .startTransaction | .sql .rollbackTransaction => True
  | .sql .commitTransaction => g.tx = some ⟨[], true⟩ ∨
    ∃ m o, x.names = (some m, some o) ∧ Entered m o g ∧ x.Done o g
  | .sql (.stmt (.insert .processedMessages id row)) => g.tx = some ⟨[], false⟩ ∧
    ∃ m o, x.names = (some m, some o) ∧ id = some m ∧ ∀ now, (row now).orderId = o
  | .sql (.stmt (.select .orders cond)) => ∃ o, x.names.2 = some o ∧
    (∀ j r, cond j r = true ↔ j = o) ∧ g.base .orders o = none
  | .sql (.stmt (.update .orders id set)) => g.tx ≠ none ∧ x.names.2 = some id ∧
    g.base .orders id = none ∧ ∀ now old, (set now old).status = .processed ∨
      (x.known = true ∧ (set now old).status = old.status)
  | .sql (.stmt (.insert .orders id row)) => g.tx ≠ none ∧ id = x.names.2 ∧ id ≠ none ∧
    ∀ now, (row now).status = .processed
  | .sql (.stmt (.malformed _)) => True
  | .sendToQueue m => m.queue ≠ AppState.processQueue ∧
    (Content.json m.payload.stringified).names = x.names
  | .channelReady | .settle _ | .publishStatusChanged _ | .dateNow => True
  | _ => False

def clerkNext (x : Clerk) : (o : AppOp) → Except Thrown o.Ans → Session schema → Clerk → Prop
  | .sql (.stmt (.select .orders _)), .ok rows, _, x' =>
    x' = { x with
      found := x.found || !(show List (Uuid × Order) from rows).isEmpty
      known := x.known ||
        (show List (Uuid × Order) from rows).any (fun e => e.2.status = .processed) }
  | .sql (.stmt (.update .orders id _)), .ok row, g', x' => x' = x ∧
    (x.found = true → (show Option Order from row) ≠ none) ∧
    (x.known = true → ∀ old, g'.base .orders id = some (some old) → old.status = .processed)
  | _, _, _, x' => x' = x

def clerkRules : Rules Clerk := ⟨clerkAllowed, fun x _ => clerkNext x⟩

theorem clerkNext_names {x x' : Clerk} {g' : Session schema} {o : AppOp}
    {r : Except Thrown o.Ans} (h : clerkNext x o r g' x') : x'.names = x.names := by
  unfold clerkNext at h
  split at h
  · rw [h]
  · rw [h.1]
  · rw [h]

theorem clerk_names {g g' : Session schema × Clerk} {o : AppOp} {r : Except Thrown o.Ans}
    (h : clerkRules.protocol.next g o r g') : g'.2.names = g.2.names :=
  clerkNext_names h.2

/-! What a worker runs keeps to these rules. -/

section Clerk

variable {x : Clerk} {g : Session schema} {m o : Uuid} {message : Json.Fields}

theorem Entered.inserted (m : Uuid) {row : ProcessedMessage} (ho : row.orderId = o) :
    Entered m o (Session.opened.put .processedMessages m none row) := by
  have hx : (Session.opened : Session schema).tx = some ⟨[], false⟩ := rfl
  have hws : (Session.opened.put .processedMessages m none row : Session schema).writes =
    [⟨.processedMessages, m, some row⟩] := Session.put_writes hx
  constructor
  case isOpen =>
    rw [Session.put_tx hx, hws]
    rfl
  case isNew =>
    rw [Session.put_base_self hx]
    rfl
  case marker =>
    rw [hws]
    exact ⟨row, List.mem_singleton_self _⟩
  case writes =>
    intro w hw
    rw [hws] at hw
    obtain rfl := List.mem_singleton.mp hw
    exact .inl ⟨row, rfl, ho⟩

theorem Entered.putOrder (h : Entered m o g) (old : Option Order) {row : Order}
    (hrow : row.status = .processed) : Entered m o (g.put .orders o old row) := by
  have hws : (g.put .orders o old row).writes = g.writes ++ [⟨.orders, o, some row⟩] :=
    Session.put_writes h.isOpen
  obtain ⟨marker, hmarker⟩ := h.marker
  constructor
  case isOpen => rw [Session.put_tx h.isOpen, hws]
  case isNew =>
    rw [Session.put_base_other h.isOpen (by simp)]
    exact h.isNew
  case marker =>
    rw [hws]
    exact ⟨marker, List.mem_append_left _ hmarker⟩
  case writes =>
    intro w hw
    rw [hws] at hw
    rcases List.mem_append.mp hw with hw | hw
    · exact h.writes w hw
    · obtain rfl := List.mem_singleton.mp hw
      exact .inr ⟨row, rfl, hrow⟩

theorem Entered.done (h : Entered m o g) (old : Option Order) (row : Order) :
    x.Done o (g.put .orders o old row) := by
  refine .inr ⟨row, ?_⟩
  rw [Session.put_writes h.isOpen]
  exact List.mem_append_right _ (List.mem_singleton_self _)

theorem wp_clerk_reject {α : Type} (e : SqlError) {Q : α → Session schema × Clerk → Prop} :
    (reject e : App α).wp clerkRules.protocol Q
      (fun _ g' => g'.1.tx = some ⟨[], true⟩) (.opened, x) := by
  refine (Prog.wp_bind _ _ _ _ _).mpr (Rules.wp_sql trivial trivial ?_ ?_)
  · intro a
    exact nomatch (show Empty from a)
  · intro e' g' x' hn _
    cases hn with
    | failed => rfl

theorem wp_clerk_insertMarker (hnames : x.names = (markerId message, orderRef message)) :
    (insertMarker (message.lookup "messageId") (message.lookup "orderId")).wp clerkRules.protocol
      (fun o g' => g'.2 = x ∧ g'.1.base .orders o = none ∧
        ∃ m, x.names = (some m, some o) ∧ Entered m o g'.1)
      (fun _ g' => g'.1.tx = some ⟨[], true⟩) (.opened, x) := by
  unfold insertMarker
  split
  · next m o hm ho =>
    have hid : x.names = (some m, some o) := by
      rw [hnames, markerId, orderRef, hm, ho]
      rfl
    refine (Prog.wp_bind _ _ _ _ _).mpr ?_
    refine Rules.wp_sql trivial ⟨rfl, m, o, hid, rfl, fun _ => rfl⟩ ?_ ?_
    · rintro a g' x' hn rfl
      cases hn with
      | insert _ _ _ j now hj _ =>
        obtain rfl := hj m rfl
        refine ⟨rfl, ?_, j, hid, .inserted j rfl⟩
        rw [Session.put_base_other rfl (by simp)]
        rfl
    · intro e g' x' hn _
      cases hn with
      | failed => rfl
  · exact wp_clerk_reject _
  · exact wp_clerk_reject _

/-- The rows that the worker reads tell it that its order is there, and whether
it is processed. -/
theorem wp_clerk_readOrder (ho : x.names.2 = some o) (hbase : g.base .orders o = none) :
    (findOne .orders (fun id _ => id = o)).wp clerkRules.protocol
      (fun found g' => g'.1 = g ∧ g'.2.names = x.names ∧ ∀ e, found = some e →
        e.1 = o ∧ g'.2.found = true ∧ (e.2.status = .processed → g'.2.known = true))
      (fun _ _ => True) (g, x) := by
  refine (Prog.wp_bind _ _ _ _ _).mpr ?_
  refine Rules.wp_sql trivial ⟨o, ho, by simp, hbase⟩ ?_ (fun _ _ _ _ _ => trivial)
  intro (rows : List (Uuid × Order)) g' x' hn hx
  have hx : x' = { x with
    found := x.found || !rows.isEmpty
    known := x.known || rows.any (fun e => e.2.status = .processed) } := hx
  subst hx
  cases hn with
  | select _ _ _ hanswers =>
    refine ⟨rfl, rfl, ?_⟩
    intro e he
    have hmem : e ∈ rows := List.mem_of_head? he
    have hid : e.1 = o := by simpa using hanswers.meets e hmem
    refine ⟨hid, by simp [List.ne_nil_of_mem hmem], ?_⟩
    intro hstatus
    have hany : rows.any (fun e => e.2.status = .processed) = true :=
      List.any_eq_true.mpr ⟨e, hmem, by simp [hstatus]⟩
    simp [hany]

theorem wp_clerk_save {order : Order} {now : Nat} (hnames : x.names = (some m, some o))
    (h : Entered m o g) (hbase : g.base .orders o = none) :
    (managerSave .orders o { order with status := .processed, processedAt := some now }).wp
      clerkRules.protocol
      (fun _ g' => g'.2.names = x.names ∧ Entered m o g'.1 ∧ g'.2.Done o g'.1)
      (fun _ _ => True) (g, x) := by
  have hopen : g.tx ≠ none := by
    rw [h.isOpen]
    simp
  have ho : x.names.2 = some o := by rw [hnames]
  refine (Prog.wp_bind _ _ _ _ _).mpr ?_
  refine Prog.wp_mono (wp_clerk_readOrder ho hbase) ?_ (fun _ _ h => h)
  rintro found ⟨_, x'⟩ ⟨rfl, hsame, hread⟩
  have hnames' : x'.names = (some m, some o) := hsame.trans hnames
  have ho' : x'.names.2 = some o := by rw [hnames']
  split
  · next hunchanged =>
    obtain ⟨e, rfl, he⟩ := Option.map_eq_some_iff.mp hunchanged
    have hknown := (hread e rfl).2.2 (by rw [he])
    exact ⟨hsame, h, .inl hknown⟩
  · cases found with
    | none =>
      refine (Prog.wp_bind _ _ _ _ _).mpr ?_
      refine Rules.wp_sql trivial ⟨hopen, ho'.symm, by simp, fun _ => rfl⟩ ?_
        (fun _ _ _ _ _ => trivial)
      rintro a g' x'' hn rfl
      cases hn with
      | insert _ _ _ j _ hj _ =>
        obtain rfl := hj o rfl
        exact ⟨hsame, h.putOrder none rfl, h.done none _⟩
    | some e =>
      have hset : ∀ now' (old : Order),
          (saveColumns .orders { order with status := .processed, processedAt := some now } e.2 now'
            old).status = .processed ∨
          (x'.known = true ∧ (saveColumns .orders { order with
            status := .processed, processedAt := some now } e.2 now' old).status = old.status) := by
        intro now' old
        by_cases hstatus : e.2.status = .processed
        · right
          exact ⟨(hread e rfl).2.2 hstatus, by simp [saveColumns, column, hstatus]⟩
        · left
          simp [saveColumns, column, Ne.symm hstatus]
      refine (Prog.wp_bind _ _ _ _ _).mpr ?_
      refine Rules.wp_sql trivial ⟨hopen, ho', hbase, hset⟩ ?_ (fun _ _ _ _ _ => trivial)
      rintro a g' x'' hn ⟨rfl, hthere, hold⟩
      cases hn with
      | updateMissing => exact absurd rfl (hthere (hread e rfl).2.1)
      | update _ _ _ now' old _ =>
        refine ⟨hsame, h.putOrder _ ?_, h.done _ _⟩
        rcases hset now' old with hdone | ⟨hknown, hkept⟩
        · exact hdone
        · rw [hkept]
          refine hold hknown old ?_
          rw [Session.put_base_self h.isOpen, hbase, Option.getD_none]

theorem wp_clerk_commit {result : Processing} (h : clerkAllowed x g (.sql .commitTransaction)) :
    (do commitTransaction; pure result : App Processing).wp clerkRules.protocol
      (fun _ _ => True) (fun _ _ => True) (g, x) := by
  refine (Prog.wp_bind _ _ _ _ _).mpr ?_
  exact Rules.wp_sql trivial h (fun _ _ _ _ _ => trivial) (fun _ _ _ _ _ => trivial)

theorem wp_clerk_processInTransaction (hnames : x.names = (markerId message, orderRef message)) :
    (do let result ← processInTransaction message; commitTransaction; pure result :
      App Processing).wp clerkRules.protocol (fun _ _ => True) (fun _ _ => True) (.opened, x) := by
  refine (Prog.wp_bind _ _ _ _ _).mpr ((Prog.wp_bind _ _ _ _ _).mpr ?_)
  refine (Prog.wp_tryCatch _ _ _ _ _).mpr ((Prog.wp_bind _ _ _ _ _).mpr ?_)
  refine Prog.wp_mono (wp_clerk_insertMarker hnames) ?_ ?_
  · rintro o ⟨g, _⟩ ⟨rfl, hbase, m, hid, hentered⟩
    have ho := congrArg Prod.snd hid
    refine (Prog.wp_bind _ _ _ _ _).mpr ?_
    refine Prog.wp_mono (wp_clerk_readOrder ho hbase) ?_ (fun _ _ h => h)
    rintro found ⟨_, x'⟩ ⟨rfl, hsame, hread⟩
    have hid' : x'.names = (some m, some o) := hsame.trans hid
    cases found with
    | none => trivial
    | some e =>
      obtain ⟨id, order⟩ := e
      obtain ⟨rfl, _, hknown⟩ := hread _ rfl
      dsimp only
      split
      · next hstatus =>
        exact wp_clerk_commit (.inr ⟨m, id, hid', hentered, .inl (hknown hstatus)⟩)
      · refine (Prog.wp_bind _ _ _ _ _).mpr ?_
        refine Rules.wp_other (by simp) trivial ?_ (fun _ _ _ => trivial)
        rintro now x'' rfl
        refine (Prog.wp_bind _ _ _ _ _).mpr ?_
        refine Prog.wp_mono (wp_clerk_save hid' hentered hbase) ?_ (fun _ _ h => h)
        rintro saved ⟨g', x'⟩ ⟨hsaved, hentered', hdone⟩
        exact wp_clerk_commit (.inr ⟨m, id, hsaved.trans hid', hentered', hdone⟩)
  · intro error g' haborted
    split
    · exact wp_clerk_commit (.inl haborted)
    · trivial

theorem wp_clerk_processOrderMessage (hnames : x.names = (markerId message, orderRef message)) :
    (processOrderMessage message).wp clerkRules.protocol (fun _ _ => True) (fun _ _ => True)
      (.closed, x) := by
  refine (Prog.wp_bind _ _ _ _ _).mpr ?_
  refine Prog.wp_mono (Rules.wp_transaction (Q := fun _ _ => True) rfl trivial
    (fun _ _ => trivial) ?_) ?_ (fun _ _ h => h)
  · rintro x' rfl
    exact wp_clerk_processInTransaction hnames
  · rintro result ⟨g, x'⟩ _
    cases result with
    | deduplicated => trivial
    | unchanged id order => trivial
    | statusChanged id order =>
      refine (Prog.wp_bind _ _ _ _ _).mpr ?_
      refine Rules.wp_other (by simp) trivial ?_ (fun _ _ _ => trivial)
      intro ts x'' _
      refine (Prog.wp_bind _ _ _ _ _).mpr ?_
      exact Rules.wp_other (by simp) trivial (fun _ _ _ => trivial) (fun _ _ _ => trivial)

/-! The handler around it works without the database. -/

def PostOp (names : Option Uuid × Option Uuid) : AppOp → Prop
  | .sendToQueue m => m.queue ≠ AppState.processQueue ∧
    (Content.json m.payload.stringified).names = names
  | .channelReady | .settle _ | .dateNow => True
  | _ => False

theorem wp_clerk_post {α : Type} {p : App α} (hp : p.Awaits (PostOp x.names)) :
    p.wp clerkRules.protocol (fun _ _ => True) (fun _ _ => True) (g, x) := by
  refine Prog.wp_mono (hp.wp (I := fun g' => g'.2.names = x.names) ?_ rfl) (fun _ _ _ => trivial)
    (fun _ _ _ => trivial)
  rintro ⟨g', x'⟩ o hx' ho
  have hallowed : clerkAllowed x' g' o := by
    cases o with
    | sendToQueue m => exact ⟨ho.1, ho.2.trans hx'.symm⟩
    | channelReady | settle _ | dateNow => trivial
    | sql _ | randomUUID | publishStatusChanged _ => exact ho.elim
  have hsql : ∀ q, o ≠ .sql q := by
    rintro q rfl
    exact ho
  refine ⟨⟨fun q hq => absurd hq (hsql q), hallowed⟩, ?_⟩
  rintro r ⟨g'', x''⟩ ⟨_, hn⟩
  exact (clerkNext_names hn).trans hx'

variable {config : WorkerConfig} {describe : Thrown → String}

theorem dlq_ne_process : AppState.dlqQueue ≠ AppState.processQueue := by decide

theorem retry_ne_process : AppState.retryQueue ≠ AppState.processQueue := by decide

theorem post_deadLetterInvalid (raw : List UInt8) :
    (deadLetterInvalid raw).Awaits (PostOp (Content.invalid raw).names) :=
  awaits_publishAndAck trivial trivial ⟨dlq_ne_process, rfl⟩ _ _

theorem post_deadLetter (payload : Json) (attempt : Nat) (reason : String) :
    (deadLetter payload attempt reason).Awaits (PostOp (Content.json payload).names) := by
  refine awaits_stamped trivial id (fun stamp => ?_)
  exact awaits_publishAndAck trivial trivial
    ⟨dlq_ne_process, (copyOf_fields _ _ (.inl rfl)).names⟩ _ _

theorem post_retryLater (payload : Json) (attempt : Nat) (reason : String) :
    (retryLater config payload attempt reason).Awaits (PostOp (Content.json payload).names) := by
  refine awaits_stamped trivial _ (fun stamp => ?_)
  exact awaits_publishAndAck trivial trivial
    ⟨retry_ne_process, (copyOf_fields _ _ (.inr rfl)).names⟩ _ _

theorem wp_clerk_handleMessage (body : Content) :
    (handleMessage config describe processOrderMessage body).wp clerkRules.protocol
      (fun _ _ => True) (fun _ _ => True) (.closed, .begin body) := by
  cases body with
  | invalid raw => exact wp_clerk_post (post_deadLetterInvalid raw)
  | json payload =>
    by_cases hnull : payload = .null
    · subst hnull
      trivial
    · rw [handleMessage_payload hnull]
      refine (Prog.wp_tryCatch _ _ _ _ _).mpr ((Prog.wp_bind _ _ _ _ _).mpr ?_)
      have hfailed : ∀ (error : Thrown) (g : Session schema) (x : Clerk),
          x.names = (Content.json payload).names →
          (if config.maxAttempts - 1 ≤ attemptOf payload then
            deadLetter payload (attemptOf payload) (getShortErrorReason describe error)
          else retryLater config payload (attemptOf payload)
            (getShortErrorReason describe error)).wp clerkRules.protocol
            (fun _ _ => True) (fun _ _ => True) (g, x) := by
        intro error g x hx
        split
        · exact wp_clerk_post (hx ▸ post_deadLetter _ _ _)
        · exact wp_clerk_post (hx ▸ post_retryLater _ _ _)
      have hprocess := wp_clerk_processOrderMessage (x := .begin (.json payload))
        (names_withAttempt payload (attemptOf payload)).symm
      refine Prog.wp_mono (Prog.wp_keeps (fun h => clerk_names h) hprocess) ?_ ?_
      · rintro _ ⟨g, x⟩ ⟨_, hx⟩
        refine (Prog.wp_bind _ _ _ _ _).mpr ?_
        unfold logDeliveryResult
        split
        · refine Rules.wp_other (by simp) trivial (fun _ _ _ => trivial) ?_
          rintro e x' rfl
          exact hfailed e _ _ hx
        · exact hfailed _ g x hx
      · rintro error ⟨g, x⟩ ⟨_, hx⟩
        exact hfailed error g x hx

theorem wp_clerk_onMessage (body : Content) :
    (onMessage config describe processOrderMessage body).wp clerkRules.protocol
      (fun _ _ => True) (fun _ _ => True) (.closed, .begin body) := by
  refine (Prog.wp_tryCatch _ _ _ _ _).mpr ?_
  refine Prog.wp_mono (wp_clerk_handleMessage body) (fun _ _ h => h) ?_
  rintro error ⟨g, x⟩ _
  exact Rules.wp_other (by simp) trivial (fun _ _ _ => trivial) (fun _ _ _ => trivial)

end Clerk

end Ecomm
