import Ecomm.Awaited
import Ecomm.Lib.Context

/-! A program that runs alone, with every failure that the server may bring:
where it stands with its transaction, the committed tables and the events. -/

namespace Ecomm.Sole

open Concurrent Sql

structure Closed (T : Database) (events : List (Nat × OrderStatusChangedEvent)) (s : AppState) :
    Prop where
  tables : s.store.tables = T
  tx : ∀ j, s.store.tx j = none
  events : s.events = events

/-- The only open transaction is that of thread `i`, with the writes `ws`. -/
structure Opened (i : Nat) (T : Database) (events : List (Nat × OrderStatusChangedEvent))
    (ws : List (Write schema)) (s : AppState) : Prop where
  tables : s.store.tables = T
  tx : s.store.tx i = some ⟨ws, false⟩
  others : ∀ j, j ≠ i → s.store.tx j = none
  events : s.events = events

/-- A statement has failed in that transaction. -/
structure Failed (i : Nat) (T : Database) (events : List (Nat × OrderStatusChangedEvent))
    (s : AppState) : Prop where
  tables : s.store.tables = T
  tx : ∃ ws, s.store.tx i = some ⟨ws, true⟩
  others : ∀ j, j ≠ i → s.store.tx j = none
  events : s.events = events

variable {i : Nat} {T : Database} {events : List (Nat × OrderStatusChangedEvent)}
  {ws : List (Write schema)} {s : AppState} {α : Type}

theorem Opened.view (h : Opened i T events ws s) : s.store.view i = T.replay ws := by
  rw [Store.view_some h.tx, h.tables]

theorem Closed.view (h : Closed T events s) : s.store.view i = T := by
  rw [Store.view_none (h.tx i), h.tables]

theorem wp_sql {o : Op schema} {Q : o.Ans → AppState → Prop} {E : Thrown → AppState → Prop}
    (h : ∀ c a store, s.store.Step i c o a store →
      Prog.Outcome Q (fun e => E (.sql e)) a { s with store }) :
    (sql o).wp (Prog.alone app i) Q E s := by
  have hstep : ∀ ch r s', s.exec i ch (.sql o) = some (r, s') → Prog.Outcome Q E r s' := by
    intro ch r s' he
    obtain ⟨a, store, hexec, rfl, rfl⟩ := AppState.exec_sql he
    have hout := h _ a store (Store.exec_step hexec)
    cases a with
    | ok a => exact hout
    | error e => exact hout
  refine (Prog.wp_await _ _ _ _).mpr ⟨trivial, ?_, ?_⟩
  · intro a s' hnext
    obtain ⟨ch, he⟩ := hnext
    exact hstep ch _ _ he
  · intro e s' hnext
    obtain ⟨ch, he⟩ := hnext
    exact hstep ch _ _ he

/-- A statement outside a transaction, which commits at once. -/
theorem Closed.wp_stmt (h : Closed T events s) {q : Stmt schema} {Q : q.Ans → AppState → Prop}
    {E : Thrown → AppState → Prop}
    (hQ : ∀ c ls a ws, q.Success T c ls a ws → ∀ s', Closed (T.replay ws) events s' → Q a s')
    (hE : ∀ e s', Closed T events s' → E e s') :
    (sql (.stmt q)).wp (Prog.alone app i) Q E s := by
  apply wp_sql
  intro c a store hstep
  cases hstep with
  | fault | refused =>
    rw [Store.abort_none (h.tx i)]
    exact hE _ _ h
  | aborted => exact hE _ _ h
  | done q ls a ws ha hq hl =>
    rw [h.view] at hq
    refine hQ c ls a ws hq _ ⟨?_, ?_, h.events⟩
    · rw [Store.perform_tables_none (h.tx i), h.tables]
    · intro j
      by_cases hj : j = i
      · subst hj
        exact Store.perform_tx_none (h.tx j) _ _
      · exact (Store.perform_tx_other _ hj _ _).trans (h.tx j)

theorem Opened.wp_stmt (h : Opened i T events ws s) {q : Stmt schema}
    {Q : q.Ans → AppState → Prop} {E : Thrown → AppState → Prop}
    (hQ : ∀ c ls a vs, q.Success (T.replay ws) c ls a vs →
      ∀ s', Opened i T events (ws ++ vs) s' → Q a s')
    (hE : ∀ e s', Failed i T events s' → E e s') :
    (sql (.stmt q)).wp (Prog.alone app i) Q E s := by
  have hopen : s.store.isAborted i = false := by simp [Store.isAborted, h.tx]
  have habort : Failed i T events { s with store := s.store.abort i } :=
    ⟨(Store.abort_tables _ _).trans h.tables, ⟨[], Store.abort_tx_self h.tx⟩,
      fun j hj => (Store.abort_tx_other _ hj).trans (h.others j hj), h.events⟩
  apply wp_sql
  intro c a store hstep
  cases hstep with
  | fault | refused => exact hE _ _ habort
  | aborted q ha =>
    rw [hopen] at ha
    cases ha
  | done q ls a vs ha hq hl =>
    rw [h.view] at hq
    exact hQ c ls a vs hq _ ⟨(Store.perform_tables_some h.tx _ _).trans h.tables,
      Store.perform_tx_some h.tx _ _,
      fun j hj => (Store.perform_tx_other _ hj _ _).trans (h.others j hj), h.events⟩

theorem Closed.wp_start (h : Closed T events s) {Q : Unit → AppState → Prop}
    {E : Thrown → AppState → Prop} (hQ : ∀ s', Opened i T events [] s' → Q () s')
    (hE : ∀ e s', Closed T events s' → E e s') :
    startTransaction.wp (Prog.alone app i) Q E s := by
  apply wp_sql
  intro c a store hstep
  cases hstep with
  | startFault => exact hE _ _ h
  | start =>
    exact hQ _ ⟨h.tables, Store.start_tx_self _ _,
      fun j hj => (Store.start_tx_other _ hj).trans (h.tx j), h.events⟩

def Inside (i : Nat) (T : Database) (events : List (Nat × OrderStatusChangedEvent))
    (s : AppState) : Prop := (∃ ws, Opened i T events ws s) ∨ Failed i T events s

theorem closed_close (ht : s.store.tables = T) (hothers : ∀ j, j ≠ i → s.store.tx j = none)
    (hevents : s.events = events) : Closed T events { s with store := s.store.close i } where
  tables := ht
  tx j := by
    by_cases hj : j = i
    · subst hj
      exact Store.close_tx_self _ _
    · exact (Store.close_tx_other _ hj).trans (hothers j hj)
  events := hevents

theorem Opened.wp_commit (h : Opened i T events ws s) {Q : Unit → AppState → Prop}
    {E : Thrown → AppState → Prop} (hQ : ∀ s', Closed (T.replay ws) events s' → Q () s')
    (hE : ∀ e s', Closed T events s' → E e s') :
    commitTransaction.wp (Prog.alone app i) Q E s := by
  apply wp_sql
  intro c a store hstep
  have hx : ∀ {x : Tx schema}, s.store.tx i = some x → x = ⟨ws, false⟩ :=
    fun htx => Option.some.inj (htx.symm.trans h.tx)
  cases hstep with
  | commitNone htx =>
    rw [h.tx] at htx
    cases htx
  | commitFault x htx => exact hE _ _ (closed_close h.tables h.others h.events)
  | commitAborted x htx ha =>
    rw [hx htx] at ha
    cases ha
  | commit x htx ha =>
    obtain rfl := hx htx
    refine hQ _ (closed_close (s := { s with store := s.store.publish i ws }) ?_ h.others h.events)
    rw [Store.publish_tables, h.tables]

theorem Failed.wp_commit (h : Failed i T events s) {Q : Unit → AppState → Prop}
    {E : Thrown → AppState → Prop} (hQ : ∀ s', Closed T events s' → Q () s')
    (hE : ∀ e s', Closed T events s' → E e s') :
    commitTransaction.wp (Prog.alone app i) Q E s := by
  obtain ⟨ws, htx'⟩ := h.tx
  apply wp_sql
  intro c a store hstep
  cases hstep with
  | commitNone htx =>
    rw [htx'] at htx
    cases htx
  | commitFault => exact hE _ _ (closed_close h.tables h.others h.events)
  | commitAborted => exact hQ _ (closed_close h.tables h.others h.events)
  | commit x htx ha =>
    obtain rfl := Option.some.inj (htx.symm.trans htx')
    cases ha

theorem wp_rollback (ht : s.store.tables = T) (hothers : ∀ j, j ≠ i → s.store.tx j = none)
    (hevents : s.events = events) {Q : Unit → AppState → Prop} {E : Thrown → AppState → Prop}
    (hQ : ∀ s', Closed T events s' → Q () s') (hE : ∀ e s', Closed T events s' → E e s') :
    rollbackTransaction.wp (Prog.alone app i) Q E s := by
  apply wp_sql
  intro c a store hstep
  have hclosed := closed_close ht hothers hevents
  cases hstep with
  | rollbackFault => exact hE _ _ hclosed
  | rollback => exact hQ _ hclosed

/-- The body leaves writes of which `R` holds once they are committed, or its
transaction has failed and it returns all the same. -/
theorem Closed.wp_transaction (h : Closed T events s) {body : App α} {R : α → Database → Prop}
    {D : α → Prop} {Q : α → AppState → Prop} {E : Thrown → AppState → Prop}
    (hbody : ∀ s₁, Opened i T events [] s₁ → body.wp (Prog.alone app i)
      (fun a s' => (∃ ws, Opened i T events ws s' ∧ R a (T.replay ws)) ∨
        (Failed i T events s' ∧ D a))
      (fun _ s' => Inside i T events s') s₁)
    (hQ : ∀ a T' s', R a T' → Closed T' events s' → Q a s')
    (hD : ∀ a s', D a → Closed T events s' → Q a s') (hE : ∀ e s', Closed T events s' → E e s') :
    (transaction body).wp (Prog.alone app i) Q E s := by
  have hcatch : ∀ (e : Thrown) (s' : AppState), s'.store.tables = T →
      (∀ j, j ≠ i → s'.store.tx j = none) → s'.events = events →
      (do
        try rollbackTransaction catch _ => pure ()
        throw e : App α).wp (Prog.alone app i) Q E s' := by
    intro e s' ht hothers hevents
    refine (Prog.wp_bind _ _ _ _ _).mpr ((Prog.wp_tryCatch _ _ _ _ _).mpr ?_)
    exact wp_rollback ht hothers hevents (fun s'' h => hE e s'' h) (fun _ s'' h => hE e s'' h)
  have hclosed : ∀ (e : Thrown) (s' : AppState), Closed T events s' → (do
        try rollbackTransaction catch _ => pure ()
        throw e : App α).wp (Prog.alone app i) Q E s' :=
    fun e s' h => hcatch e s' h.tables (fun j _ => h.tx j) h.events
  refine (Prog.wp_tryCatch _ _ _ _ _).mpr ((Prog.wp_bind _ _ _ _ _).mpr (h.wp_start ?_ hclosed))
  intro s₁ h₁
  refine (Prog.wp_bind _ _ _ _ _).mpr (Prog.wp_mono (hbody s₁ h₁) ?_ ?_)
  · intro a s₂ h₂
    refine (Prog.wp_bind _ _ _ _ _).mpr ?_
    rcases h₂ with ⟨ws, hopened, hR⟩ | ⟨hfailed, hD'⟩
    · exact hopened.wp_commit (fun s₃ h₃ => hQ a _ s₃ hR h₃) hclosed
    · exact hfailed.wp_commit (fun s₃ h₃ => hD a s₃ hD' h₃) hclosed
  · intro e s₂ h₂
    rcases h₂ with ⟨ws, hopened⟩ | hfailed
    · exact hcatch e s₂ hopened.tables hopened.others hopened.events
    · exact hcatch e s₂ hfailed.tables hfailed.others hfailed.events

section Calls

variable {Q : Option (Uuid × Order) → AppState → Prop} {E : Thrown → AppState → Prop}

theorem Closed.wp_findOne (h : Closed T events s) (id : Uuid)
    (hQ : ∀ s', Closed T events s' → Q (((T .orders).lookup id).map (fun r => (id, r))) s')
    (hE : ∀ e s', Closed T events s' → E e s') :
    (findOne .orders (fun j _ => j = id)).wp (Prog.alone app i) Q E s := by
  refine (Prog.wp_bind _ _ _ _ _).mpr (h.wp_stmt ?_ hE)
  intro c ls a ws hsuccess s' hs'
  cases hsuccess
  have hrow := hQ s' hs'
  rw [← head_rows_id] at hrow
  exact hrow

theorem Closed.wp_findOneById (h : Closed T events s) (id : String)
    (hQ : ∀ u s', Closed T events s' → Q (((T .orders).lookup u).map (fun r => (u, r))) s')
    (hE : ∀ e s', Closed T events s' → E e s') :
    (findOneById .orders id).wp (Prog.alone app i) Q E s := by
  unfold findOneById
  cases uuidIn id with
  | some u => exact h.wp_findOne u (hQ u) hE
  | none =>
    refine (Prog.wp_bind _ _ _ _ _).mpr (h.wp_stmt ?_ hE)
    intro c ls a ws hsuccess
    exact nomatch (show Empty from a)

theorem Opened.wp_findOne (h : Opened i T events ws s) (id : Uuid)
    (hQ : ∀ s', Opened i T events ws s' →
      Q (((T.replay ws .orders).lookup id).map (fun r => (id, r))) s')
    (hE : ∀ e s', Failed i T events s' → E e s') :
    (findOne .orders (fun j _ => j = id)).wp (Prog.alone app i) Q E s := by
  refine (Prog.wp_bind _ _ _ _ _).mpr (h.wp_stmt ?_ hE)
  intro c ls a vs hsuccess s' hs'
  cases hsuccess
  rw [List.append_nil] at hs'
  have hrow := hQ s' hs'
  rw [← head_rows_id] at hrow
  exact hrow

end Calls

theorem Closed.wp_dateNow (h : Closed T events s) {Q : Nat → AppState → Prop}
    {E : Thrown → AppState → Prop} (hQ : ∀ now s', Closed T events s' → Q now s') :
    (await .dateNow).wp (Prog.alone app i) Q E s := by
  refine (Prog.wp_await _ _ _ _).mpr ⟨trivial, ?_, ?_⟩
  · intro now s' hnext
    obtain ⟨ch, he⟩ := hnext
    obtain ⟨_, rfl⟩ := Prod.mk.inj (Option.some.inj he)
    exact hQ now _ ⟨h.tables, h.tx, h.events⟩
  · intro e s' hnext
    obtain ⟨ch, he⟩ := hnext
    cases (Prod.mk.inj (Option.some.inj he)).1

theorem Opened.wp_dateNow (h : Opened i T events ws s) {Q : Nat → AppState → Prop}
    {E : Thrown → AppState → Prop} (hQ : ∀ now s', Opened i T events ws s' → Q now s') :
    (await .dateNow).wp (Prog.alone app i) Q E s := by
  refine (Prog.wp_await _ _ _ _).mpr ⟨trivial, ?_, ?_⟩
  · intro now s' hnext
    obtain ⟨ch, he⟩ := hnext
    obtain ⟨_, rfl⟩ := Prod.mk.inj (Option.some.inj he)
    exact hQ now _ ⟨h.tables, h.tx, h.others, h.events⟩
  · intro e s' hnext
    obtain ⟨ch, he⟩ := hnext
    cases (Prod.mk.inj (Option.some.inj he)).1

theorem Closed.wp_publish (h : Closed T events s) {event : OrderStatusChangedEvent}
    {Q : Unit → AppState → Prop} {E : Thrown → AppState → Prop}
    (hQ : ∀ s', Closed T (events ++ [(i, event)]) s' → Q () s') :
    (await (.publishStatusChanged event)).wp (Prog.alone app i) Q E s := by
  refine (Prog.wp_await _ _ _ _).mpr ⟨trivial, ?_, ?_⟩
  · intro now s' hnext
    obtain ⟨ch, he⟩ := hnext
    obtain ⟨_, rfl⟩ := Prod.mk.inj (Option.some.inj he)
    refine hQ _ ⟨h.tables, h.tx, ?_⟩
    rw [h.events]
  · intro e s' hnext
    obtain ⟨ch, he⟩ := hnext
    cases (Prod.mk.inj (Option.some.inj he)).1

end Ecomm.Sole
