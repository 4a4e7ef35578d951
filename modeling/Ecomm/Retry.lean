import Ecomm.Lib.Solo
import Ecomm.ProcessSteps

/-! One `processOrderMessage` call that runs alone and meets no server failure:
it processes the order unless its marker row is committed already. -/

namespace Ecomm

open Concurrent Sql

def NoFault (c : AppChoice) : Prop := c.sql.fault = false

theorem markerId_eq {message : Json.Fields} {m : Uuid} (h : markerId message = some m) :
    uuidParam (message.lookup "messageId") = .ok m := by
  unfold markerId at h
  cases hp : uuidParam (message.lookup "messageId") with
  | ok u =>
    rw [hp] at h
    cases h
    rfl
  | error e =>
    rw [hp] at h
    cases h

theorem orderRef_eq {message : Json.Fields} {o : Uuid} (h : orderRef message = some o) :
    uuidParam (message.lookup "orderId") = .ok o := by
  unfold orderRef at h
  cases hp : uuidParam (message.lookup "orderId") with
  | ok u =>
    rw [hp] at h
    cases h
    rfl
  | error e =>
    rw [hp] at h
    cases h

section

variable {s : AppState} {i : Nat} {α : Type} {T : Database} {ws : List (Write schema)}

theorem finishes_sql {o : Sql.Op schema} {Q : Except Thrown o.Ans → AppState → Prop}
    (h : ∀ c : Sql.Choice schema, c.fault = false → ∃ r store,
      s.store.exec i c o = some (r, store) ∧ Q (r.mapError .sql) { s with store }) :
    (sql o).Finishes app NoFault i Q s := by
  refine Prog.finishes_await ?_
  intro ch hch
  obtain ⟨r, store, he, hQ⟩ := h ch.sql hch
  cases r with
  | ok a => exact ⟨.ok a, _, by simp [AppState.exec, he], hQ⟩
  | error e => exact ⟨.error (.sql e), _, by simp [AppState.exec, he], hQ⟩

theorem finishes_transaction (hs : s.store.Coherent) (htx : ∀ j, s.store.tx j = none)
    {body : App α} {Q : α → AppState → Prop}
    (h : ∀ store : Store schema, store.Solo i s.store.tables [] →
      (do let result ← body; commitTransaction; pure result : App α).Finishes app NoFault i
        (fun r s' => ∃ a, r = .ok a ∧ Q a s') { s with store }) :
    (transaction body).Finishes app NoFault i (fun r s' => ∃ a, r = .ok a ∧ Q a s') s := by
  refine Prog.finishes_tryCatch (Prog.finishes_bind (finishes_sql ?_))
  intro c hc
  obtain ⟨store, he, hsolo⟩ := Store.exec_start_solo hs htx hc
  refine ⟨_, _, he, Prog.finishes_mono (h store hsolo) ?_⟩
  rintro _ s' ⟨a, rfl, hQ⟩
  exact ⟨a, rfl, hQ⟩

theorem finishes_commit (h : s.store.Solo i T ws) {a : α} {Q : α → AppState → Prop}
    (hQ : ∀ store : Store schema, store.tables = T.replay ws → Q a { s with store }) :
    (do commitTransaction; pure a : App α).Finishes app NoFault i
      (fun r s' => ∃ a, r = .ok a ∧ Q a s') s := by
  refine Prog.finishes_bind (finishes_sql ?_)
  intro c hc
  obtain ⟨store, he, ht⟩ := h.exec_commit hc
  exact ⟨_, _, he, _, rfl, hQ store ht⟩

theorem finishes_findOne (h : s.store.Solo i T ws) (t : Table) (id : Uuid)
    {Q : Except Thrown (Option (Uuid × t.Row)) → AppState → Prop}
    (hQ : Q (.ok (((T.replay ws t).lookup id).map (fun r => (id, r)))) s) :
    (findOne t (fun j _ => j = id)).Finishes app NoFault i Q s := by
  refine Prog.finishes_bind (finishes_sql ?_)
  intro c hc
  refine ⟨_, _, h.exec_select hc t _, ?_⟩
  rw [← head_rows_id] at hQ
  exact hQ

end

theorem allow_order {T T' : Database} (horders : T' .orders = T .orders)
    (husers : T' .users = T .users) {o : Uuid} {r r' : Order} (hu : r'.userId = r.userId)
    (hk : r'.idempotencyKey = r.idempotencyKey) (h : allow T .orders o r = .ok ()) :
    allow T' .orders o r' = .ok () := by
  obtain ⟨hcheck, hkeys, hrefs⟩ := allow_ok h
  refine allow_intro ?_ ?_ ?_
  · simpa [columnTypes, hk] using hcheck
  · simpa [keyTaken, uniqueKeys, horders, hk] using hkeys
  · simpa [refsExist, foreignKeys, husers, hu] using hrefs

theorem allow_marker {T : Database} {m o : Uuid} {r : Order} (ho : (T .orders).lookup o = some r)
    (now : Nat) :
    allow T .processedMessages m
      { orderId := o, handler := some "orders.process", processedAt := now } = .ok () := by
  refine allow_intro ?_ ?_ ?_
  · have hlen : "orders.process".length ≤ 120 := by decide
    simp [columnTypes, varchar, hlen]
  · simp [keyTaken, uniqueKeys]
  · simp [refsExist, foreignKeys, ho]

def markerWrite (m o : Uuid) (now : Nat) : Write schema :=
  ⟨.processedMessages, m,
    some { orderId := o, handler := some "orders.process", processedAt := now }⟩

structure Handled (m o : Uuid) (r : Order) (T : Database) : Prop where
  marker : marked T m
  order : ∃ now updated, (T .orders).lookup o =
    some { r with status := .processed, processedAt := some now, updatedAt := updated }

section

variable {s : AppState} {i : Nat} {message : Json.Fields} {m o : Uuid} {r : Order} {T : Database}

theorem marker_table (T : Database) (m o : Uuid) (now : Nat) {t : Table}
    (ht : t ≠ .processedMessages) : T.replay [markerWrite m o now] t = T t := by
  refine Tables.replay_other_table T ?_
  intro w hw
  obtain rfl := List.mem_singleton.mp hw
  exact ht.symm

theorem saveColumns_processed (r : Order) (read now : Nat) :
    saveColumns .orders { r with status := .processed, processedAt := some read } r now r =
      { r with status := .processed, processedAt := some read, updatedAt := now } := by
  simp [saveColumns, column_self, updateDate]

theorem finishes_insertMarker (h : s.store.Solo i T []) (hid : markerId message = some m)
    (ho : orderRef message = some o) (hnew : (T .processedMessages).lookup m = none)
    (hrow : (T .orders).lookup o = some r) {Q : Except Thrown Uuid → AppState → Prop}
    (hQ : ∀ (store : Store schema) now, store.Solo i T [markerWrite m o now] →
      Q (.ok o) { s with store }) :
    (insertMarker (message.lookup "messageId") (message.lookup "orderId")).Finishes app NoFault i
      Q s := by
  unfold insertMarker
  rw [markerId_eq hid, orderRef_eq ho]
  refine Prog.finishes_bind (finishes_sql ?_)
  intro c hc
  obtain ⟨store, he, hsolo⟩ := h.exec_insert hc (t := Table.processedMessages) (g := some m)
    (r := fun now => { orderId := o, handler := some "orders.process", processedAt := now })
    hnew (allow_marker hrow c.now)
  exact ⟨_, _, he, hQ store c.now hsolo⟩

/-- The order is saved over the row that was read, which nothing has changed. -/
theorem finishes_saveProcessed {read now : Nat} (h : s.store.Solo i T [markerWrite m o now])
    (hrow : (T .orders).lookup o = some r) (hallow : allow T .orders o r = .ok ())
    (hstatus : r.status ≠ .processed) {Q : Except Thrown Order → AppState → Prop}
    (hQ : ∀ (store : Store schema) order updated, store.Solo i T [markerWrite m o now,
      ⟨.orders, o, some { r with status := .processed, processedAt := some read,
                                 updatedAt := updated }⟩] → Q (.ok order) { s with store }) :
    (managerSave .orders o { r with status := .processed, processedAt := some read }).Finishes
      app NoFault i Q s := by
  have hfound : (T.replay [markerWrite m o now] .orders).lookup o = some r := by
    rw [marker_table T m o now (by simp), hrow]
  refine Prog.finishes_bind (finishes_findOne h .orders o ?_)
  rw [hfound]
  have hne : some r ≠ some { r with status := .processed, processedAt := some read } := by
    intro heq
    exact hstatus (congrArg Order.status (Option.some.inj heq))
  simp only [Option.map_some, hne, if_false]
  refine Prog.finishes_bind (finishes_sql ?_)
  intro c hc
  have hallow' : allow (T.replay [markerWrite m o now]) .orders o (saveColumns .orders
      { r with status := .processed, processedAt := some read } r c.now r) = .ok () := by
    rw [saveColumns_processed]
    exact allow_order (marker_table T m o now (by simp)) (marker_table T m o now (by simp)) rfl rfl
      hallow
  obtain ⟨store, he, hsolo⟩ := h.exec_update hc hfound hallow'
  rw [saveColumns_processed] at hsolo
  exact ⟨_, _, he, hQ store _ c.now hsolo⟩

theorem Handled.of_writes {now read updated : Nat} :
    Handled m o r (T.replay [markerWrite m o now, ⟨.orders, o,
      some { r with status := .processed, processedAt := some read, updatedAt := updated }⟩]) := by
  constructor
  · have hother : ¬ (Table.orders = Table.processedMessages ∧ o = m) := by
      rintro ⟨ht, _⟩
      cases ht
    have hmarker : (((T.write (markerWrite m o now)).write ⟨.orders, o,
        some { r with status := .processed, processedAt := some read, updatedAt := updated }⟩)
          .processedMessages).lookup m = (T.write (markerWrite m o now) .processedMessages).lookup m :=
      Tables.lookup_write_other (w := (⟨.orders, o, _⟩ : Write schema)) _ hother
    exact congrArg Option.isSome (hmarker.trans (Tables.lookup_write_self T _ m _))
  · exact ⟨read, updated, Tables.lookup_write_self (T.write (markerWrite m o now)) Table.orders o
      (some { r with status := .processed, processedAt := some read, updatedAt := updated })⟩

theorem retry_finishes (hs : s.store.Coherent) (htx : ∀ j, s.store.tx j = none)
    (hid : markerId message = some m) (ho : orderRef message = some o)
    (hnew : ¬ marked s.store.tables m) (hrow : (s.store.tables .orders).lookup o = some r)
    (hallow : allow s.store.tables .orders o r = .ok ()) (hstatus : r.status ≠ .processed) :
    (processOrderMessage message).Finishes app NoFault i
      (fun a s' => a = .ok ⟨.processed, some (.str (uuidOut o))⟩ ∧
        Handled m o r s'.store.tables) s := by
  have hnone : (s.store.tables .processedMessages).lookup m = none := by
    simpa [marked] using hnew
  refine Prog.finishes_bind (Prog.finishes_mono (finishes_transaction hs htx
    (Q := fun result s' => (∃ order, result = .statusChanged o order) ∧
      Handled m o r s'.store.tables) ?_) ?_)
  · intro store hsolo
    refine Prog.finishes_bind (Prog.finishes_bind (Prog.finishes_tryCatch (Prog.finishes_bind ?_)))
    refine finishes_insertMarker (by exact hsolo) hid ho hnone hrow ?_
    intro store now hsolo
    refine Prog.finishes_bind (finishes_findOne (by exact hsolo) .orders o ?_)
    rw [marker_table _ m o now (by simp), hrow]
    simp only [Option.map_some, hstatus, if_false]
    refine Prog.finishes_bind (Prog.finishes_await ?_)
    intro ch _
    refine ⟨_, _, rfl, ?_⟩
    refine Prog.finishes_bind (finishes_saveProcessed (by exact hsolo) hrow hallow hstatus ?_)
    intro store order updated hsolo
    refine finishes_commit (by exact hsolo) ?_
    intro store ht
    refine ⟨⟨order, rfl⟩, ?_⟩
    rw [ht]
    exact .of_writes
  · rintro _ s' ⟨_, rfl, ⟨order, rfl⟩, hhandled⟩
    refine Prog.finishes_bind (Prog.finishes_await ?_)
    intro ch _
    refine ⟨_, _, rfl, Prog.finishes_bind (Prog.finishes_await ?_)⟩
    intro ch _
    exact ⟨_, _, rfl, rfl, hhandled⟩

/-- A call that finds its marker row committed ends its transaction and is
deduplicated. -/
theorem duplicate_finishes (hs : s.store.Coherent) (htx : ∀ j, s.store.tx j = none)
    (hid : markerId message = some m) (ho : orderRef message = some o)
    (hm : marked s.store.tables m) :
    (processOrderMessage message).Finishes app NoFault i
      (fun a s' => a = .ok ⟨.deduplicated, message.lookup "orderId"⟩ ∧
        s'.store.tables = s.store.tables ∧ s'.events = s.events) s := by
  refine Prog.finishes_bind (Prog.finishes_mono (finishes_transaction hs htx
    (Q := fun result s' => result = .deduplicated ∧ s'.store.tables = s.store.tables ∧
      s'.events = s.events) ?_) ?_)
  · intro store hsolo
    refine Prog.finishes_bind (Prog.finishes_bind (Prog.finishes_tryCatch (Prog.finishes_bind ?_)))
    unfold insertMarker
    rw [markerId_eq hid, orderRef_eq ho]
    refine Prog.finishes_bind (finishes_sql ?_)
    intro c hc
    refine ⟨_, _, hsolo.exec_insert_taken hc hm, ?_⟩
    refine Prog.finishes_bind (finishes_sql ?_)
    intro c hc
    refine ⟨_, _, Store.exec_commit_aborted (Store.abort_tx_self hsolo.tx) hc, _, rfl, rfl, ?_, rfl⟩
    exact (Store.abort_tables store i).trans hsolo.tables
  · rintro _ s' ⟨_, rfl, rfl, ht, he⟩
    exact ⟨rfl, ht, he⟩

/-- A call that finds its order processed enters its marker row and leaves the
order as it is. -/
theorem already_finishes (hs : s.store.Coherent) (htx : ∀ j, s.store.tx j = none)
    (hid : markerId message = some m) (ho : orderRef message = some o)
    (hnew : ¬ marked s.store.tables m) (hrow : (s.store.tables .orders).lookup o = some r)
    (hstatus : r.status = .processed) :
    (processOrderMessage message).Finishes app NoFault i
      (fun a s' => a = .ok ⟨.alreadyProcessed, message.lookup "orderId"⟩ ∧
        ∃ now, s'.store.tables = s.store.tables.replay [markerWrite m o now]) s := by
  have hnone : (s.store.tables .processedMessages).lookup m = none := by
    simpa [marked] using hnew
  refine Prog.finishes_bind (Prog.finishes_mono (finishes_transaction hs htx
    (Q := fun result s' => result = .unchanged o r ∧
      ∃ now, s'.store.tables = s.store.tables.replay [markerWrite m o now]) ?_) ?_)
  · intro store hsolo
    refine Prog.finishes_bind (Prog.finishes_bind (Prog.finishes_tryCatch (Prog.finishes_bind ?_)))
    refine finishes_insertMarker (by exact hsolo) hid ho hnone hrow ?_
    intro store now hsolo
    refine Prog.finishes_bind (finishes_findOne (by exact hsolo) .orders o ?_)
    rw [marker_table _ m o now (by simp), hrow]
    simp only [Option.map_some, hstatus, if_true]
    refine finishes_commit (by exact hsolo) ?_
    intro store ht
    exact ⟨rfl, now, ht⟩
  · rintro _ s' ⟨_, rfl, rfl, hnow⟩
    exact ⟨rfl, hnow⟩

end

end Ecomm
