import Ecomm.Integrity
import Ecomm.Sole

/-! Calls that create, change and delete orders, one after another. The events
that they publish are the changes of the stored statuses. -/

namespace Ecomm

open Concurrent Sql

inductive OrderCall where
  | create (dto : CreateOrderDto) (idempotencyKey : Option String)
  | updateOrder (id : String) (updates : UpdateOrderDto)
  | processOrderMessage (message : Json.Fields)
  | deleteOrder (id : String)

def OrderCall.program : OrderCall → App Unit
  | .create dto idempotencyKey => do
    let _ ← Ecomm.create dto idempotencyKey
    pure ()
  | .updateOrder id updates => do
    let _ ← Ecomm.updateOrder id updates
    pure ()
  | .processOrderMessage message => do
    let _ ← Ecomm.processOrderMessage message
    pure ()
  | .deleteOrder id => Ecomm.deleteOrder id

def storedStatus (T : Database) (o : Uuid) : Option OrderStatus :=
  ((T .orders).lookup o).map (·.status)

theorem storedStatus_of_lookup {T : Database} {o : Uuid} {row : Order}
    (h : (T .orders).lookup o = some row) : storedStatus T o = some row.status :=
  congrArg (Option.map Order.status) h

theorem storedStatus_write (T : Database) (o : Uuid) (r : Order) :
    storedStatus (T.write ⟨.orders, o, some r⟩) o = some r.status :=
  congrArg (Option.map Order.status) (Tables.lookup_write_self (S := schema) T .orders o (some r))

theorem storedStatus_replay {T : Database} {ws : List (Write schema)} {o : Uuid}
    (h : ∀ w ∈ ws, ¬ w.at .orders o) : storedStatus (T.replay ws) o = storedStatus T o :=
  congrArg (Option.map Order.status)
    (Tables.lookup_replay_other (S := schema) (t := Table.orders) T h)

def StatusChanged (T T' : Database) (o : Uuid) : Prop :=
  ∃ before after, storedStatus T o = some before ∧ storedStatus T' o = some after ∧ before ≠ after

/-- One event for a call that has changed the status of an order, with the
status that is stored now, and none for any other call. -/
structure Mirrored (T T' : Database) (events : List (Nat × OrderStatusChangedEvent)) : Prop where
  once : events.length ≤ 1
  changed : ∀ o, StatusChanged T T' o ↔ ∃ e ∈ events, e.2.orderId = o
  stored : ∀ e ∈ events, storedStatus T' e.2.orderId = some e.2.status

/-- The orders are as before, except that `o` has the status `status`. -/
structure Restated (T T' : Database) (o : Uuid) (status : OrderStatus) : Prop where
  self : storedStatus T' o = some status
  others : ∀ j, j ≠ o → storedStatus T' j = storedStatus T j

section Mirrored

variable {T T' : Database} {o : Uuid} {status before : OrderStatus} {i : Nat}

theorem not_statusChanged (h : storedStatus T' o = none ∨ storedStatus T' o = storedStatus T o ∨
    storedStatus T o = none) : ¬ StatusChanged T T' o := by
  intro hchanged
  obtain ⟨before, after, hbefore, hafter, hne⟩ := hchanged
  rw [hbefore, hafter] at h
  rcases h with h | h | h
  · cases h
  · exact hne (Option.some.inj h).symm
  · cases h

theorem mirrored_nil (h : ∀ o, storedStatus T' o = none ∨ storedStatus T' o = storedStatus T o ∨
    storedStatus T o = none) : Mirrored T T' [] where
  once := Nat.zero_le 1
  changed o := by
    constructor
    · intro hchanged
      exact absurd hchanged (not_statusChanged (h o))
    · intro hevent
      obtain ⟨e, hmem, _⟩ := hevent
      cases hmem
  stored e hmem := by cases hmem

theorem Restated.mirrored_same (h : Restated T T' o status)
    (hbefore : storedStatus T o = some status) : Mirrored T T' [] := by
  apply mirrored_nil
  intro j
  by_cases hj : j = o
  · subst hj
    exact .inr (.inl (h.self.trans hbefore.symm))
  · exact .inr (.inl (h.others j hj))

theorem Restated.mirrored (h : Restated T T' o status) (hbefore : storedStatus T o = some before)
    (hne : before ≠ status) {event : OrderStatusChangedEvent} (hid : event.orderId = o)
    (hstatus : event.status = status) : Mirrored T T' [(i, event)] where
  once := le_refl 1
  changed j := by
    constructor
    · intro hchanged
      by_cases hj : j = o
      · exact ⟨(i, event), List.mem_singleton_self _, hid.trans hj.symm⟩
      · exact absurd hchanged (not_statusChanged (.inr (.inl (h.others j hj))))
    · intro hevent
      obtain ⟨e, hmem, rfl⟩ := hevent
      obtain rfl := List.mem_singleton.mp hmem
      rw [hid]
      exact ⟨before, status, hbefore, h.self, hne⟩
  stored e hmem := by
    obtain rfl := List.mem_singleton.mp hmem
    rw [hid, hstatus]
    exact h.self

theorem Restated.present (h : Restated T T' o status) (hbefore : storedStatus T o ≠ none) (j : Uuid)
    (hj : storedStatus T j = none) : storedStatus T' j = none := by
  by_cases hjo : j = o
  · subst hjo
    exact absurd hj hbefore
  · rw [h.others j hjo, hj]

end Mirrored

def Told (T : Database) (events : List (Nat × OrderStatusChangedEvent)) (s : AppState) : Prop :=
  ∃ T' new, Sole.Closed T' (events ++ new) s ∧ Mirrored T T' new ∧
    ∀ o, storedStatus T o = none → storedStatus T' o = none

section Calls

variable {T : Database} {events : List (Nat × OrderStatusChangedEvent)} {s : AppState} {i : Nat}
  {ws : List (Write schema)}

theorem told_nil {T' : Database} (h : Sole.Closed T' events s) (hmirrored : Mirrored T T' [])
    (hpresent : ∀ o, storedStatus T o = none → storedStatus T' o = none) : Told T events s := by
  refine ⟨T', [], ?_, hmirrored, hpresent⟩
  rw [List.append_nil]
  exact h

theorem told_of_closed (h : Sole.Closed T events s) : Told T events s :=
  told_nil h (mirrored_nil (fun _ => .inr (.inl rfl))) (fun _ ho => ho)

theorem wp_writeEntity_status (h : Sole.Opened i T events ws s) {o : Uuid} {row entity : Order}
    (hrow : (T.replay ws .orders).lookup o = some row) {Q : Order → AppState → Prop}
    {E : Thrown → AppState → Prop}
    (hQ : ∀ saved vs s', saved.status = entity.status → Sole.Opened i T events (ws ++ vs) s' →
      Restated (T.replay ws) (T.replay (ws ++ vs)) o entity.status → Q saved s')
    (hE : ∀ e s', Sole.Failed i T events s' → E e s') :
    (writeEntity .orders o entity (some (o, row))).wp (Prog.alone app i) Q E s := by
  refine (Prog.wp_bind _ _ _ _ _).mpr (h.wp_stmt ?_ hE)
  intro c ls a vs hsuccess s' hs'
  cases hsuccess with
  | updateMissing _ _ _ hmissing =>
    rw [hrow] at hmissing
    cases hmissing
  | update _ _ _ old hold _ =>
    obtain rfl := Option.some.inj (hrow.symm.trans hold)
    refine hQ _ _ s' rfl hs' ⟨?_, ?_⟩
    · rw [Tables.replay_append, Tables.replay_single]
      exact (storedStatus_write _ o _).trans (congrArg some (column_self entity.status row.status))
    · intro j hj
      rw [Tables.replay_append]
      apply storedStatus_replay
      intro w hw hat
      obtain rfl := List.mem_singleton.mp hw
      exact hj hat.2.symm

/-- `save` of an order whose status may differ from the stored one. -/
theorem wp_repositorySave_status (h : Sole.Closed T events s) {o : Uuid} {row entity : Order}
    (hrow : (T .orders).lookup o = some row) {Q : Order → AppState → Prop}
    {E : Thrown → AppState → Prop}
    (hQ : ∀ saved T' s', saved.status = entity.status → Sole.Closed T' events s' →
      Restated T T' o entity.status → Q saved s')
    (hE : ∀ e s', Sole.Closed T events s' → E e s') :
    (repositorySave .orders o entity).wp (Prog.alone app i) Q E s := by
  refine (Prog.wp_bind _ _ _ _ _).mpr (h.wp_findOne o ?_ hE)
  intro s₁ h₁
  rw [hrow]
  dsimp only [Option.map_some]
  split
  · next hsame =>
    obtain rfl := Option.some.inj hsame
    exact hQ _ T s₁ rfl h₁ ⟨storedStatus_of_lookup hrow, fun _ _ => rfl⟩
  · refine h₁.wp_transaction (R := fun saved T' =>
      saved.status = entity.status ∧ Restated T T' o entity.status) (D := fun _ => False) ?_ ?_ ?_ hE
    · intro s₂ h₂
      refine wp_writeEntity_status h₂ hrow ?_ (fun _ _ hfailed => .inr hfailed)
      intro saved vs s₃ hsaved h₃ hrestated
      exact .inl ⟨vs, h₃, hsaved, hrestated⟩
    · intro saved T' s₃ hR h₃
      exact hQ saved T' s₃ hR.1 h₃ hR.2
    · intro saved s₃ hfalse
      exact hfalse.elim

theorem wp_managerSave_status (h : Sole.Opened i T events ws s) {o : Uuid} {row entity : Order}
    (hrow : (T.replay ws .orders).lookup o = some row) {Q : Order → AppState → Prop}
    {E : Thrown → AppState → Prop}
    (hQ : ∀ saved vs s', saved.status = entity.status → Sole.Opened i T events (ws ++ vs) s' →
      Restated (T.replay ws) (T.replay (ws ++ vs)) o entity.status → Q saved s')
    (hE : ∀ e s', Sole.Failed i T events s' → E e s') :
    (managerSave .orders o entity).wp (Prog.alone app i) Q E s := by
  refine (Prog.wp_bind _ _ _ _ _).mpr (h.wp_findOne o ?_ hE)
  intro s₁ h₁
  rw [hrow]
  dsimp only [Option.map_some]
  split
  · next hsame =>
    obtain rfl := Option.some.inj hsame
    rw [← List.append_nil ws] at h₁
    refine hQ _ [] s₁ rfl h₁ ⟨?_, ?_⟩
    · rw [List.append_nil]
      exact storedStatus_of_lookup hrow
    · intro j _
      rw [List.append_nil]
  · exact wp_writeEntity_status h₁ hrow hQ hE

theorem wp_updateOrder_told (h : Sole.Closed T events s) (id : String) (updates : UpdateOrderDto) :
    (updateOrder id updates).wp (Prog.alone app i) (fun _ => Told T events)
      (fun _ => Told T events) s := by
  have htold : ∀ (e : Thrown) s', Sole.Closed T events s' → Told T events s' :=
    fun _ _ h => told_of_closed h
  refine (Prog.wp_bind _ _ _ _ _).mpr (h.wp_findOneById id ?_ htold)
  intro o s₁ h₁
  cases hrow : (T .orders).lookup o with
  | none => exact told_of_closed h₁
  | some row =>
    have hbefore : storedStatus T o = some row.status := storedStatus_of_lookup hrow
    refine (Prog.wp_bind _ _ _ _ _).mpr (wp_repositorySave_status h₁ hrow ?_ htold)
    intro saved T' s₂ hsaved h₂ hrestated
    have hpresent := hrestated.present (by simp [hbefore])
    have hstatus : (updates.assign row).status = updates.status.getD row.status := rfl
    rw [hstatus] at hsaved hrestated
    cases hupdate : updates.status with
    | none =>
      rw [hupdate] at hrestated
      exact told_nil h₂ (hrestated.mirrored_same hbefore) hpresent
    | some status =>
      rw [hupdate] at hsaved hrestated
      by_cases hsame : status = row.status
      · subst hsame
        simp only [Option.any_some, ne_eq, not_true_eq_false, decide_false, Bool.false_eq_true,
          if_false]
        exact told_nil h₂ (hrestated.mirrored_same hbefore) hpresent
      · simp only [Option.any_some, ne_eq, hsame, not_false_eq_true, decide_true, if_true]
        refine (Prog.wp_bind _ _ _ _ _).mpr (h₂.wp_dateNow ?_)
        intro ts s₃ h₃
        refine (Prog.wp_bind _ _ _ _ _).mpr (h₃.wp_publish ?_)
        intro s₄ h₄
        exact ⟨T', _, h₄, hrestated.mirrored hbefore (Ne.symm hsame) rfl hsaved, hpresent⟩

theorem wp_insertMarker_orders (h : Sole.Opened i T events [] s) (messageId orderId : Option Json)
    {Q : Uuid → AppState → Prop} {E : Thrown → AppState → Prop}
    (hQ : ∀ o vs s', Sole.Opened i T events vs s' → T.replay vs .orders = T .orders → Q o s')
    (hE : ∀ e s', Sole.Failed i T events s' → E e s') :
    (insertMarker messageId orderId).wp (Prog.alone app i) Q E s := by
  have hreject : ∀ e, (reject e : App Uuid).wp (Prog.alone app i) Q E s := by
    intro e
    refine (Prog.wp_bind _ _ _ _ _).mpr (h.wp_stmt ?_ hE)
    intro c ls a vs hsuccess
    exact nomatch (show Empty from a)
  unfold insertMarker
  split
  · next m o _ _ =>
    refine (Prog.wp_bind _ _ _ _ _).mpr (h.wp_stmt ?_ hE)
    intro c ls a vs hsuccess s' hs'
    cases hsuccess
    apply hQ o _ s' hs'
    apply Tables.replay_other_table
    intro w hw
    obtain rfl := List.mem_singleton.mp hw
    simp
  · exact hreject _
  · exact hreject _

def Processing.Restates (T : Database) : Processing → Database → Prop
  | .deduplicated, T' | .unchanged _ _, T' => ∀ o, storedStatus T' o = storedStatus T o
  | .statusChanged id order, T' => order.status = .processed ∧ Restated T T' id .processed ∧
    ∃ before, storedStatus T id = some before ∧ before ≠ .processed

theorem wp_processInTransaction_status (h : Sole.Opened i T events [] s) (message : Json.Fields) :
    (processInTransaction message).wp (Prog.alone app i)
      (fun result s' => (∃ ws, Sole.Opened i T events ws s' ∧
          result.Restates T (T.replay ws)) ∨
        (Sole.Failed i T events s' ∧ result = .deduplicated))
      (fun _ s' => Sole.Inside i T events s') s := by
  refine (Prog.wp_bind _ _ _ _ _).mpr ((Prog.wp_tryCatch _ _ _ _ _).mpr
    ((Prog.wp_bind _ _ _ _ _).mpr (wp_insertMarker_orders h _ _ ?_ ?_)))
  · intro o vs s₁ h₁ horders
    have hsame : ∀ j, storedStatus (T.replay vs) j = storedStatus T j := by
      intro j
      rw [storedStatus, storedStatus, horders]
    refine (Prog.wp_bind _ _ _ _ _).mpr (h₁.wp_findOne o ?_ (fun _ _ hfailed => .inr hfailed))
    intro s₂ h₂
    cases hrow : (T.replay vs .orders).lookup o with
    | none => exact .inl ⟨vs, h₂⟩
    | some row =>
      dsimp only [Option.map_some]
      split
      · exact .inl ⟨vs, h₂, hsame⟩
      · next hstatus =>
        refine (Prog.wp_bind _ _ _ _ _).mpr (h₂.wp_dateNow ?_)
        intro now s₃ h₃
        refine (Prog.wp_bind _ _ _ _ _).mpr
          (wp_managerSave_status h₃ hrow ?_ (fun _ _ hfailed => .inr hfailed))
        intro saved us s₄ hsaved h₄ hrestated
        refine .inl ⟨_, h₄, hsaved, ⟨hrestated.self, ?_⟩, row.status, ?_, hstatus⟩
        · intro j hj
          rw [hrestated.others j hj, hsame]
        · rw [← hsame]
          exact storedStatus_of_lookup hrow
  · intro e s₁ h₁
    dsimp only
    split
    · exact .inr ⟨h₁, rfl⟩
    · exact .inr h₁

theorem wp_processOrderMessage_told (h : Sole.Closed T events s) (message : Json.Fields) :
    (processOrderMessage message).wp (Prog.alone app i) (fun _ => Told T events)
      (fun _ => Told T events) s := by
  have htold : ∀ (e : Thrown) s', Sole.Closed T events s' → Told T events s' :=
    fun _ _ h => told_of_closed h
  have hquiet : ∀ T' s', (∀ o, storedStatus T' o = storedStatus T o) → Sole.Closed T' events s' →
      Told T events s' := by
    intro T' s' hsame h'
    refine told_nil h' (mirrored_nil (fun o => .inr (.inl (hsame o)))) ?_
    intro o ho
    rw [hsame, ho]
  refine (Prog.wp_bind _ _ _ _ _).mpr (h.wp_transaction (R := fun result => result.Restates T)
    (D := fun result => result = .deduplicated)
    (fun s₁ h₁ => wp_processInTransaction_status h₁ message) ?_ ?_ htold)
  · intro result T' s₁ hR h₁
    cases result with
    | deduplicated => exact hquiet T' s₁ hR h₁
    | unchanged id order => exact hquiet T' s₁ hR h₁
    | statusChanged id order =>
      obtain ⟨hstatus, hrestated, before, hbefore, hne⟩ := hR
      refine (Prog.wp_bind _ _ _ _ _).mpr (h₁.wp_dateNow ?_)
      intro ts s₂ h₂
      refine (Prog.wp_bind _ _ _ _ _).mpr (h₂.wp_publish ?_)
      intro s₃ h₃
      exact ⟨T', _, h₃, hrestated.mirrored hbefore hne rfl hstatus,
        hrestated.present (by simp [hbefore])⟩
  · intro result s₁ hdeduplicated h₁
    subst hdeduplicated
    exact told_of_closed h₁

/-- A deletion takes its order away and leaves the statuses of the others. -/
theorem storedStatus_deletion {o : Uuid} {ws : List (Write schema)}
    (hws : deletion (S := schema) T .orders o = some ws) (j : Uuid) :
    storedStatus (T.replay ws) j = none ∨ storedStatus (T.replay ws) j = storedStatus T j := by
  by_cases hw : ∃ w ∈ ws, w.at .orders j
  · obtain ⟨r, hmem, hlookup⟩ := Tables.lookup_replay_written hw
    left
    rw [storedStatus, hlookup T]
    have hnone : r = none := deletion_rows hws _ hmem
    rw [hnone]
    rfl
  · right
    exact storedStatus_replay (fun w hmem hat => hw ⟨w, hmem, hat⟩)

theorem wp_deleteOrder_told (h : Sole.Closed T events s) (id : String) :
    (deleteOrder id).wp (Prog.alone app i) (fun _ => Told T events) (fun _ => Told T events) s := by
  have htold : ∀ (e : Thrown) s', Sole.Closed T events s' → Told T events s' :=
    fun _ _ h => told_of_closed h
  refine (Prog.wp_bind _ _ _ _ _).mpr ?_
  unfold delete
  cases uuidIn id with
  | none =>
    refine (Prog.wp_bind _ _ _ _ _).mpr (h.wp_stmt ?_ htold)
    intro c ls a ws hsuccess
    exact nomatch (show Empty from a)
  | some u =>
    refine h.wp_stmt ?_ htold
    intro c ls affected ws hsuccess s₁ h₁
    cases hsuccess with
    | deleteMissing => exact told_of_closed h₁
    | delete _ _ old ws hold hws =>
      refine told_nil h₁ (mirrored_nil ?_) ?_
      · intro j
        exact (storedStatus_deletion hws j).imp_right .inl
      · intro j hj
        rcases storedStatus_deletion hws j with hnone | hsame
        · exact hnone
        · rw [hsame, hj]

end Calls

section Create

variable {T D : Database} {chs : List AppChoice}

/-- The orders of `T` with new ones, whose ids the server has drawn. -/
def Drawn (T : Database) (chs : List AppChoice) (D : Database) : Prop :=
  ∀ o, storedStatus D o = storedStatus T o ∨ (storedStatus T o = none ∧ ∃ ch ∈ chs, ch.sql.id = o)

theorem Drawn.replay (h : Drawn T chs D) {ch : AppChoice} (hch : ch ∈ chs) {q : Stmt schema}
    {ls : List (Resource schema)} {a : q.Ans} {ws : List (Write schema)}
    (hq : q.Success D ch.sql ls a ws) (hcreate : CreateOp (.sql (.stmt q))) :
    Drawn T chs (D.replay ws) := by
  have hother : (∀ w ∈ ws, ∀ o, ¬ w.at .orders o) → Drawn T chs (D.replay ws) := by
    intro hws o
    rw [storedStatus_replay (fun w hw => hws w hw o)]
    exact h o
  cases hq with
  | select | lockMissing | lock | updateMissing | deleteMissing => exact hother (by simp)
  | delete => exact hcreate.elim
  | update t id set old hold =>
    obtain rfl : t = .products := hcreate
    apply hother
    intro w hw o hat
    obtain rfl := List.mem_singleton.mp hw
    cases hat.1
  | insert t id row hnew =>
    by_cases ht : t = .orders
    · subst ht
      obtain rfl : id = none := hcreate.resolve_left (by simp)
      have hnone : storedStatus D ch.sql.id = none := congrArg (Option.map Order.status) hnew
      intro o
      by_cases ho : ch.sql.id = o
      · subst ho
        right
        refine ⟨?_, ch, hch, rfl⟩
        rcases h ch.sql.id with hsame | hnew
        · rw [← hsame, hnone]
        · exact hnew.1
      · rw [storedStatus_replay]
        · exact h o
        · intro w hw hat
          obtain rfl := List.mem_singleton.mp hw
          exact ho hat.2
    · apply hother
      intro w hw o hat
      obtain rfl := List.mem_singleton.mp hw
      exact ht hat.1

theorem create_drawn {s s' : AppState} {i : Nat} {dto : CreateOrderDto} {key : Option String}
    {r : Except Thrown Unit} (htx : ∀ j, s.store.tx j = none)
    (h : (OrderCall.create dto key).program.eval app i s chs = some (r, s')) :
    s'.events = s.events ∧ Drawn s.store.tables chs s'.store.tables := by
  let kept : AppState → Prop := fun t => t.events = s.events ∧
    Drawn s.store.tables chs t.store.tables ∧ Drawn s.store.tables chs (t.store.view i)
  have hcalls : (OrderCall.create dto key).program.Awaits CreateOp :=
    (create_awaits dto key).bind (fun _ => trivial)
  have hwp : (OrderCall.create dto key).program.wp (Prog.aloneOn app (· ∈ chs) i) (fun _ => kept)
      (fun _ => kept) s := by
    refine hcalls.wp ?_ ⟨rfl, fun _ => .inl rfl, ?_⟩
    · intro t o ht ho
      refine ⟨trivial, ?_⟩
      intro a t' hnext
      obtain ⟨ch, hch, he⟩ := hnext
      have he : AppState.exec t i ch o = some (a, t') := he
      obtain ⟨hevents, htables, hview⟩ := ht
      have hsame : t'.events = t.events := by
        rcases AppState.exec_events he with hsame | ⟨e, rfl, _⟩
        · exact hsame
        · exact ho.elim
      refine ⟨hsame.trans hevents, ?_⟩
      cases o with
      | sql q =>
        obtain ⟨b, store, hexec, rfl, rfl⟩ := AppState.exec_sql he
        refine (Store.exec_step hexec).keeps htables hview ?_
        intro q ls a ws hq hsuccess
        subst hq
        exact hview.replay hch hsuccess ho
      | settle | publishStatusChanged | dateNow => exact ho.elim
      | channelReady | sendToQueue | randomUUID =>
        rw [AppState.exec_store he (by simp)]
        exact ⟨htables, hview⟩
    · rw [Store.view_none (htx i)]
      exact fun _ => .inl rfl
  have hend := Prog.eval_outcome_on hwp h (fun _ hch => hch)
  cases r with
  | ok a => exact ⟨hend.1, hend.2.1⟩
  | error e => exact ⟨hend.1, hend.2.1⟩

end Create

def OrderCall.creates : OrderCall → Prop
  | .create _ _ => True
  | _ => False

structure Announced (call : OrderCall) (chs : List AppChoice) (s s' : AppState) : Prop where
  resting : Resting s'.store.tables s'
  events : ∃ new, s'.events = s.events ++ new ∧ Mirrored s.store.tables s'.store.tables new
  new : ∀ o, storedStatus s.store.tables o = none → storedStatus s'.store.tables o ≠ none →
    call.creates ∧ ∃ ch ∈ chs, ch.sql.id = o

section Runs

variable {s s' : AppState} {i : Nat} {chs : List AppChoice} {α : Type} {r : Except Thrown α}

theorem eval_coherent {p : App α} (hs : s.store.Coherent) (h : p.eval app i s chs = some (r, s')) :
    s'.store.Coherent := by
  refine Prog.eval_keeps (I := fun s : AppState => s.store.Coherent) ?_ (Prog.awaits_any p) hs h
  intro t ch o a t' ht _ he
  by_cases hsql : ∃ q, o = .sql q
  · obtain ⟨q, rfl⟩ := hsql
    obtain ⟨b, store, hexec, _, rfl⟩ := AppState.exec_sql he
    exact ht.exec hexec
  · have he : AppState.exec t i ch o = some (a, t') := he
    rw [AppState.exec_store he (fun q hq => hsql ⟨q, hq⟩)]
    exact ht

theorem told_announced {p : App α} {call : OrderCall} (hs : Resting s.store.tables s)
    (hp : p.wp (Prog.alone app i) (fun _ => Told s.store.tables s.events)
      (fun _ => Told s.store.tables s.events) s)
    (h : p.eval app i s chs = some (r, s')) : Announced call chs s s' := by
  have htold : Told s.store.tables s.events s' := by
    have hend := Prog.eval_outcome hp h
    cases r with
    | ok a => exact hend
    | error e => exact hend
  obtain ⟨T', new, hclosed, hmirrored, hnew⟩ := htold
  obtain rfl := hclosed.tables
  refine ⟨⟨eval_coherent hs.coherent h, hclosed.tx, fun _ _ hr => hr⟩,
    ⟨new, hclosed.events, hmirrored⟩, ?_⟩
  intro o ho ho'
  exact absurd (hnew o ho) ho'

theorem call_announced {call : OrderCall} {r : Except Thrown Unit} (hs : Resting s.store.tables s)
    (h : call.program.eval app i s chs = some (r, s')) : Announced call chs s s' := by
  have hclosed : Sole.Closed s.store.tables s.events s := ⟨rfl, hs.tx, rfl⟩
  cases call with
  | create dto key =>
    have htidy : Tidy (OrderCall.create dto key).program :=
      (tidy_create dto key).bind (fun _ => (keeps_pure _).tidy)
    obtain ⟨hevents, hdrawn⟩ := create_drawn hs.tx h
    refine ⟨(htidy.resting hs h).begin, ⟨[], ?_, mirrored_nil ?_⟩, ?_⟩
    · rw [hevents, List.append_nil]
    · intro o
      exact .inr ((hdrawn o).imp_right And.left)
    · intro o ho ho'
      rcases hdrawn o with hsame | hnew
      · exact absurd (hsame.trans ho) ho'
      · exact ⟨trivial, hnew.2⟩
  | updateOrder id updates =>
    refine told_announced hs ((Prog.wp_bind _ _ _ _ _).mpr ?_) h
    exact Prog.wp_mono (wp_updateOrder_told hclosed id updates) (fun _ _ h => h) (fun _ _ h => h)
  | processOrderMessage message =>
    refine told_announced hs ((Prog.wp_bind _ _ _ _ _).mpr ?_) h
    exact Prog.wp_mono (wp_processOrderMessage_told hclosed message) (fun _ _ h => h)
      (fun _ _ h => h)
  | deleteOrder id => exact told_announced hs (wp_deleteOrder_told hclosed id) h

end Runs

def lastEvent (s : AppState) (o : Uuid) : Option OrderStatusChangedEvent :=
  ((s.events.map (·.2)).filter (fun e => e.orderId = o)).getLast?

/-- The server draws no id for a new order that an event was about before. -/
def FreshIds : AppState → List (Episode app OrderCall) → Prop
  | _, [] => True
  | s, e :: calls =>
    (e.call.creates → ∀ ch ∈ e.choices, ∀ x ∈ s.events, x.2.orderId ≠ ch.sql.id) ∧
      ∀ d, e.call.program.eval app e.thread s e.choices = some d → FreshIds d.2 calls

/-- The last event about an order that exists has its stored status. -/
def Current (s : AppState) : Prop :=
  ∀ o, storedStatus s.store.tables o ≠ none → ∀ e, lastEvent s o = some e →
    storedStatus s.store.tables o = some e.status

section History

variable {s s' : AppState} {calls : List (Episode app OrderCall)}

theorem mem_of_lastEvent {o : Uuid} {e : OrderStatusChangedEvent} (h : lastEvent s o = some e) :
    ∃ x ∈ s.events, x.2.orderId = o := by
  obtain ⟨hmem, ho⟩ := List.mem_filter.mp (List.mem_of_getLast? h)
  obtain ⟨x, hx, rfl⟩ := List.mem_map.mp hmem
  exact ⟨x, hx, of_decide_eq_true ho⟩

theorem Announced.current {call : OrderCall} {chs : List AppChoice} (h : Announced call chs s s')
    (hs : Current s)
    (hfresh : call.creates → ∀ ch ∈ chs, ∀ x ∈ s.events, x.2.orderId ≠ ch.sql.id) :
    Current s' := by
  obtain ⟨new, hevents, hmirrored⟩ := h.events
  intro o ho e he
  by_cases hnew : ∃ x ∈ new, x.2.orderId = o
  · obtain ⟨x, hx, rfl⟩ := hnew
    obtain rfl : new = [x] := by
      have honce := hmirrored.once
      match new, hx with
      | [y], hx => rw [List.mem_singleton.mp hx]
    have hlast : lastEvent s' x.2.orderId = some x.2 := by
      simp [lastEvent, hevents]
    obtain rfl := Option.some.inj (hlast.symm.trans he)
    exact hmirrored.stored x hx
  · have hlast : lastEvent s' o = lastEvent s o := by
      have hnone : (new.map (·.2)).filter (fun e => e.orderId = o) = [] := by
        apply List.filter_eq_nil_iff.mpr
        intro y hy hyo
        obtain ⟨x, hx, rfl⟩ := List.mem_map.mp hy
        exact hnew ⟨x, hx, of_decide_eq_true hyo⟩
      rw [lastEvent, hevents, List.map_append, List.filter_append, hnone, List.append_nil, lastEvent]
    rw [hlast] at he
    have hpresent : storedStatus s.store.tables o ≠ none := by
      intro hnone
      obtain ⟨hcreates, ch, hch, hid⟩ := h.new o hnone ho
      obtain ⟨x, hx, hxo⟩ := mem_of_lastEvent he
      exact hfresh hcreates ch hch x hx (hxo.trans hid.symm)
    have hbefore := hs o hpresent e he
    obtain ⟨after, hafter⟩ := Option.ne_none_iff_exists'.mp ho
    rw [hafter]
    by_contra hne
    refine hnew ((hmirrored.changed o).mp ⟨e.status, after, hbefore, hafter, ?_⟩)
    intro heq
    exact hne (congrArg some heq.symm)

theorem resting_runAll (hs : Resting s.store.tables s)
    (h : Episode.runAll OrderCall.program s calls = some s') : Resting s'.store.tables s' := by
  have hmeet : Episode.Meet (M := app) OrderCall.program (fun _ _ => True) s calls :=
    Episode.meet_of_forall (M := app) (fun _ _ _ => trivial) s
  refine Episode.runAll_induction (M := app) (I := fun s => Resting s.store.tables s) ?_ hs hmeet h
  intro t t' i call chs r ht _ he
  exact (call_announced ht he).resting

theorem current_runAll (hs : Resting s.store.tables s) (hcurrent : Current s)
    (hfresh : FreshIds s calls) (h : Episode.runAll OrderCall.program s calls = some s') :
    Current s' := by
  induction calls generalizing s with
  | nil =>
    obtain rfl := Option.some.inj h
    exact hcurrent
  | cons e calls ih =>
    cases he : e.call.program.eval app e.thread s e.choices with
    | none => simp [Episode.runAll, he] at h
    | some result =>
      obtain ⟨r, t⟩ := result
      simp only [Episode.runAll, he] at h
      have hcall := call_announced hs he
      exact ih hcall.resting (hcall.current hcurrent hfresh.1) (hfresh.2 (r, t) he) h

/-- In every sequence of calls, each to its end before the next, a call
publishes one event if it has changed the status of an order, and none
otherwise; the last event about an order that exists has its stored status. -/
theorem status_events_mirror (hs : s.Quiet)
    (h : Episode.runAll OrderCall.program s calls = some s') :
    (∀ before (e : Episode app OrderCall) after (t t' : AppState) r, calls = before ++ e :: after →
      Episode.runAll OrderCall.program s before = some t →
      e.call.program.eval app e.thread t e.choices = some (r, t') →
      ∃ new, t'.events = t.events ++ new ∧ Mirrored t.store.tables t'.store.tables new) ∧
    (FreshIds s calls → ∀ o order, (s'.store.tables .orders).lookup o = some order →
      ∀ e, lastEvent s' o = some e → e.status = order.status) := by
  have hresting : Resting s.store.tables s :=
    ⟨hs.coherent, hs.tx, fun _ _ hr => hr⟩
  constructor
  · intro before e after t t' r _ hbefore he
    exact (call_announced (resting_runAll hresting hbefore) he).events
  · intro hfresh o order horder e he
    have hcurrent : Current s := by
      intro o _ e he
      obtain ⟨x, hx, _⟩ := mem_of_lastEvent he
      rw [hs.events] at hx
      cases hx
    have hstatus : storedStatus s'.store.tables o = some order.status :=
      storedStatus_of_lookup horder
    have hend := current_runAll hresting hcurrent hfresh h o (by simp [hstatus]) e he
    exact Option.some.inj (hend.symm.trans hstatus)

end History

def paidProcessed : List (Episode app OrderCall) :=
  [⟨0, .updateOrder (uuidOut 7) ⟨some .paid, none⟩, List.replicate 7 (tick 0)⟩,
    ⟨1, .processOrderMessage (orderMessage 3), List.replicate 9 (tick 0)⟩]

def secondOrder : Episode app OrderCall :=
  ⟨2, .create (penOrder none 1).dto none, List.replicate 13 (tick 9)⟩

theorem secondOrder_fresh :
    FreshIds (serving (penOrdered .pending)) (paidProcessed ++ [secondOrder]) := by
  have hids : (Episode.runAll OrderCall.program (serving (penOrdered .pending)) paidProcessed).map
      (fun s => s.events.map (fun x => x.2.orderId)) = some [7, 7] := by decide +kernel
  refine ⟨fun hcreates => hcreates.elim, ?_⟩
  intro d hd
  refine ⟨fun hcreates => hcreates.elim, ?_⟩
  intro d' hd'
  refine ⟨?_, fun _ _ => trivial⟩
  intro _ ch hch x hx
  obtain rfl := List.eq_of_mem_replicate hch
  simp only [paidProcessed, Episode.runAll, hd, hd', Option.map_some] at hids
  have hmem := List.mem_map_of_mem (f := fun x => x.2.orderId) hx
  rw [Option.some.inj hids] at hmem
  intro heq
  rw [heq] at hmem
  revert hmem
  decide

theorem status_events_mirror_secondOrder :
    ∃ s, Episode.runAll OrderCall.program (serving (penOrdered .pending))
        (paidProcessed ++ [secondOrder]) = some s ∧
      ∀ o order, (s.store.tables .orders).lookup o = some order →
        ∀ e, lastEvent s o = some e → e.status = order.status := by
  have hrun : (Episode.runAll OrderCall.program (serving (penOrdered .pending))
      (paidProcessed ++ [secondOrder])).isSome = true := by decide +kernel
  obtain ⟨s, hs⟩ := Option.isSome_iff_exists.mp hrun
  exact ⟨s, hs,
    (status_events_mirror (serving_quiet (penOrdered_distinct _)) hs).2 secondOrder_fresh⟩

end Ecomm
