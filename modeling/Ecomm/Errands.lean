import Ecomm.Lib.Lawful
import Ecomm.Pipeline

/-! What a thread of the order queue leaves behind when it ends: no transaction,
and no announcement of an order that is not stored. -/

namespace Ecomm

open Concurrent Sql Prog

def StoredOrder (T : Database) (o : Uuid) : Prop := ((T .orders).lookup o).isSome = true

/-- `written` is the order that the open transaction has inserted, and `placed`
the one that the thread has committed. -/
structure Errand where
  isOpen : Bool
  written : Option Uuid
  placed : Option Uuid

namespace Errand

def idle : Errand := ⟨false, none, none⟩

def inserted (g : Errand) (id : Uuid) : Table → Errand
  | .orders => { g with written := if g.isOpen then some id else none }
  | _ => g

def failed (g : Errand) : Errand := { g with written := none }

end Errand

def errandAllowed (g : Errand) : AppOp → Prop
  | .sql o => tidyAllowed g.isOpen (.sql o)
  | .sendToQueue m => ∀ u o, Announces m u o → g.placed = some o
  | _ => True

def errandNext (g : Errand) : (o : AppOp) → Except Thrown o.Ans → Errand → Prop
  | .sql .startTransaction, .ok _, g' => g' = ⟨true, none, g.placed⟩
  | .sql .commitTransaction, .ok _, g' => g' = ⟨false, none, g.written.or g.placed⟩
  | .sql .commitTransaction, .error _, g' => g' = ⟨false, none, g.placed⟩
  | .sql .rollbackTransaction, _, g' => g' = ⟨false, none, g.placed⟩
  | .sql (.stmt (.insert t _ _)), .ok a, g' => g' = g.inserted (show Uuid × t.Row from a).1 t
  | .sql (.stmt (.select t cond)), .ok rows, g' =>
    g' = g ∧ ∀ e ∈ (show List (Uuid × t.Row) from rows), cond e.1 e.2 = true
  | .sql (.stmt _), .ok _, g' => g' = g
  | .sql (.stmt _), .error _, g' => g' = g.failed
  | _, _, g' => g' = g

def errandRules : Protocol AppOp AppOp.Ans Thrown Errand where
  allowed := errandAllowed
  next := errandNext

structure AtErrand (store : Store schema) (i : Nat) (g : Errand) : Prop where
  isOpen : (store.tx i).isSome = g.isOpen
  written : ∀ o, g.written = some o → ∃ x row, store.tx i = some x ∧ x.aborted = false ∧
    (⟨.orders, o, row⟩ : Write schema) ∈ x.writes
  placed : ∀ o, g.placed = some o → StoredOrder store.tables o

/-- What holds in every state that callers of `create` and workers reach. -/
structure Errands (s : AppState) (γ : Nat → Errand) : Prop where
  coherent : s.store.Coherent
  orderly : s.store.Orderly (S := schema) Lawful
  errand : ∀ i, AtErrand s.store i (γ i)
  announced : ∀ u o, HandedOver s u o → StoredOrder s.store.tables o

section Sound

variable {store store' : Store schema} {s s' : AppState} {γ : Nat → Errand} {i j : Nat}
  {g g' : Errand} {ch : Choice schema}

theorem StoredOrder.within {T T' : Database} {o : Uuid} (hT : Sql.Tables.Within (S := schema) T T')
    (h : StoredOrder T o) : StoredOrder T' o := hT Table.orders o h

theorem AtErrand.frame (h : AtErrand store i g) (htx : store'.tx i = store.tx i)
    (hT : store.tables.Within store'.tables) : AtErrand store' i g where
  isOpen := by rw [htx, h.isOpen]
  written o ho := by
    rw [htx]
    exact h.written o ho
  placed o ho := (h.placed o ho).within hT

theorem AtErrand.closed (h : AtErrand store i g) (htx : store'.tx i = none)
    (hT : store.tables.Within store'.tables) : AtErrand store' i ⟨false, none, g.placed⟩ where
  isOpen := by rw [htx, Option.isSome_none]
  written := nofun
  placed o ho := (h.placed o ho).within hT

theorem AtErrand.failed (h : AtErrand store i g)
    (hopen : (store'.tx i).isSome = (store.tx i).isSome)
    (hT : store.tables.Within store'.tables) : AtErrand store' i g.failed where
  isOpen := hopen.trans h.isOpen
  written := nofun
  placed o ho := (h.placed o ho).within hT

/-- The commit of a transaction that is not aborted stores the order that it
has inserted. -/
theorem AtErrand.committed (h : AtErrand store i g) (hgrowing : store.Growing) {x : Tx schema}
    (hx : store.tx i = some x) {o : Uuid} (ho : g.written = some o) :
    StoredOrder (store.tables.replay x.writes) o := by
  obtain ⟨y, row, hy, _, hmem⟩ := h.written o ho
  obtain rfl := Option.some.inj (hx.symm.trans hy)
  obtain ⟨row', hmem', hlook⟩ := Tables.lookup_replay_written (S := schema) ⟨_, hmem, rfl, rfl⟩
  rw [StoredOrder, hlook]
  exact hgrowing i x hx _ hmem'

theorem AtErrand.isAborted (h : AtErrand store i g) {o : Uuid} (ho : g.written = some o) :
    ∃ x, store.tx i = some x ∧ x.aborted = false := by
  obtain ⟨x, row, hx, ha, _⟩ := h.written o ho
  exact ⟨x, hx, ha⟩

theorem errand_start (h : AtErrand store i g) {r : Except SqlError Unit}
    (he : store.exec i ch .startTransaction = some (r, store'))
    (hT : store.tables.Within store'.tables) :
    ∃ g', errandNext g (.sql .startTransaction) (r.mapError .sql) g' ∧ AtErrand store' i g' := by
  cases Store.exec_step he with
  | startFault => exact ⟨g, rfl, h⟩
  | start =>
    refine ⟨⟨true, none, g.placed⟩, rfl, ?_, nofun, fun o ho => (h.placed o ho).within hT⟩
    rw [Store.start_tx_self, Option.isSome_some]

theorem errand_commit (h : AtErrand store i g) (hgrowing : store.Growing)
    {r : Except SqlError Unit} (he : store.exec i ch .commitTransaction = some (r, store'))
    (hT : store.tables.Within store'.tables) :
    ∃ g', errandNext g (.sql .commitTransaction) (r.mapError .sql) g' ∧ AtErrand store' i g' := by
  have hnone : (∀ o, g.written ≠ some o) → store'.tx i = none →
      AtErrand store' i ⟨false, none, g.written.or g.placed⟩ := by
    intro hw htx
    rw [Option.eq_none_iff_forall_ne_some.mpr hw]
    exact h.closed htx hT
  cases Store.exec_step he with
  | commitNone htx =>
    refine ⟨_, rfl, hnone ?_ htx⟩
    intro o ho
    obtain ⟨x, hx, _⟩ := h.isAborted ho
    rw [htx] at hx
    cases hx
  | commitFault x htx => exact ⟨_, rfl, h.closed (Store.close_tx_self _ i) hT⟩
  | commitAborted x htx ha =>
    refine ⟨_, rfl, hnone ?_ (Store.close_tx_self _ i)⟩
    intro o ho
    obtain ⟨y, hy, hy'⟩ := h.isAborted ho
    obtain rfl := Option.some.inj (htx.symm.trans hy)
    rw [ha] at hy'
    cases hy'
  | commit x htx ha =>
    have hclosed := h.closed (Store.close_tx_self (store.publish i x.writes) i) hT
    refine ⟨_, rfl, hclosed.isOpen, nofun, ?_⟩
    intro o ho
    cases hw : g.written with
    | none =>
      rw [hw] at ho
      exact hclosed.placed o ho
    | some o' =>
      rw [hw] at ho
      obtain rfl := Option.some.inj ho
      exact h.committed hgrowing htx hw

theorem errand_rollback (h : AtErrand store i g) {r : Except SqlError Unit}
    (he : store.exec i ch .rollbackTransaction = some (r, store'))
    (hT : store.tables.Within store'.tables) :
    ∃ g', errandNext g (.sql .rollbackTransaction) (r.mapError .sql) g' ∧
      AtErrand store' i g' := by
  cases Store.exec_step he with
  | rollbackFault => exact ⟨_, rfl, h.closed (Store.close_tx_self _ i) hT⟩
  | rollback => exact ⟨_, rfl, h.closed (Store.close_tx_self _ i) hT⟩

theorem isSome_abort (store : Store schema) (i : Nat) :
    ((store.abort i).tx i).isSome = (store.tx i).isSome := by
  cases hx : store.tx i with
  | none => rw [Store.abort_none hx, hx]
  | some x =>
    rw [Store.abort_tx_self hx]
    rfl

/-- A statement that succeeds adds to the writes of its transaction. -/
theorem AtErrand.wrote (h : AtErrand store i g) {q : Stmt schema} {a : q.Ans}
    (he : store.exec i ch (.stmt q) = some (.ok a, store'))
    (hT : store.tables.Within store'.tables) : AtErrand store' i g := by
  cases hx : store.tx i with
  | none =>
    have hnone : store'.tx i = none := by
      cases Store.exec_step he with
      | done q ls a ws => exact Store.perform_tx_none hx _ _
    exact h.frame (hnone.trans hx.symm) hT
  | some x =>
    obtain ⟨ws, hx'⟩ := Store.exec_stmt_ok he hx
    have hopen := h.isOpen
    rw [hx] at hopen
    refine ⟨by rw [hx', ← hopen]; rfl, ?_, fun o ho => (h.placed o ho).within hT⟩
    intro o ho
    obtain ⟨y, row, hy, hy', hmem⟩ := h.written o ho
    obtain rfl := Option.some.inj (hx.symm.trans hy)
    exact ⟨_, row, hx', hy', List.mem_append_left _ hmem⟩

theorem AtErrand.inserted (h : AtErrand store i g) {t : Table} {id : Option Uuid}
    {row : Nat → t.Row} {a : Uuid × t.Row}
    (he : store.exec i ch (.stmt (.insert t id row)) = some (.ok a, store'))
    (hT : store.tables.Within store'.tables) : AtErrand store' i (g.inserted a.1 t) := by
  have hwrote : AtErrand store' i g := h.wrote he hT
  cases t with
  | users | products | orderItems | processedMessages => exact hwrote
  | orders =>
    refine ⟨hwrote.isOpen, ?_, hwrote.placed⟩
    intro o ho
    cases hopen : g.isOpen with
    | false => simp [Errand.inserted, hopen] at ho
    | true =>
      simp only [Errand.inserted, hopen, if_true] at ho
      obtain rfl := Option.some.inj ho
      obtain ⟨x, hx⟩ := Option.isSome_iff_exists.mp (h.isOpen.trans hopen)
      have hx' := Store.exec_insert_tx he hx
      have ha : x.aborted = false := by
        cases Store.exec_step he with
        | done q ls a ws ha => simpa [Store.isAborted, hx] using ha
      exact ⟨_, _, hx', ha, List.mem_append_right _ (List.mem_singleton_self _)⟩

theorem errand_stmt (h : AtErrand store i g) {q : Stmt schema} {r : Except SqlError q.Ans}
    (he : store.exec i ch (.stmt q) = some (r, store'))
    (hT : store.tables.Within store'.tables) :
    ∃ g', errandNext g (.sql (.stmt q)) (r.mapError .sql) g' ∧ AtErrand store' i g' := by
  cases r with
  | error e =>
    have hopen : (store'.tx i).isSome = (store.tx i).isSome := by
      cases Store.exec_step he with
      | aborted => rfl
      | fault | refused => exact isSome_abort store i
    exact ⟨g.failed, by cases q <;> rfl, h.failed hopen hT⟩
  | ok a =>
    cases q with
    | insert t id row => exact ⟨_, rfl, h.inserted he hT⟩
    | select t cond =>
      have hrows : ∀ e ∈ (show List (Uuid × t.Row) from a), cond e.1 e.2 = true := by
        cases Store.exec_step he with
        | done q ls a ws ha hq =>
          cases hq
          intro e hmem
          obtain ⟨e', hmem', rfl⟩ := List.mem_map.mp hmem
          exact (List.mem_filter.mp hmem').2
      exact ⟨g, ⟨rfl, hrows⟩, h.wrote he hT⟩
    | selectForUpdate | update | delete | malformed => exact ⟨g, rfl, h.wrote he hT⟩

theorem errand_sql (h : AtErrand store i g) (hgrowing : store.Growing) {q : Op schema}
    {r : Except SqlError q.Ans} (he : store.exec i ch q = some (r, store'))
    (hT : store.tables.Within store'.tables) :
    ∃ g', errandNext g (.sql q) (r.mapError .sql) g' ∧ AtErrand store' i g' := by
  cases q with
  | startTransaction => exact errand_start h he hT
  | commitTransaction => exact errand_commit h hgrowing he hT
  | rollbackTransaction => exact errand_rollback h he hT
  | stmt q => exact errand_stmt h he hT

theorem handed_cases {o : AppOp} {c : AppChoice} {r : Except Thrown o.Ans}
    (he : s.exec i c o = some (r, s')) {u id : Uuid} (h : HandedOver s' u id) :
    HandedOver s u id ∨ ∃ m, o = .sendToQueue m ∧ Announces m u id := by
  obtain ⟨e, hmem, hannounces⟩ := h
  by_cases ho : ∃ m, o = .sendToQueue m
  · obtain ⟨m, rfl⟩ := ho
    have hhand : e ∈ (s.handOver i m).published →
        HandedOver s u id ∨ ∃ m', AppOp.sendToQueue m = .sendToQueue m' ∧ Announces m' u id := by
      intro hmem
      rcases List.mem_append.mp hmem with hold | hnew
      · exact .inl ⟨e, hold, hannounces⟩
      · obtain rfl := List.mem_singleton.mp hnew
        exact .inr ⟨m, rfl, hannounces⟩
    rcases AppState.exec_sendToQueue he with ⟨_, rfl⟩ | ⟨_, rfl⟩ | ⟨_, rfl⟩
    · exact hhand hmem
    · exact hhand hmem
    · exact .inl ⟨e, hmem, hannounces⟩
  · rw [AppState.exec_published he (fun m hm => ho ⟨m, hm⟩)] at hmem
    exact .inl ⟨e, hmem, hannounces⟩

theorem Errands.other (h : Errands s γ) (hstore : s'.store = s.store)
    (hannounced : ∀ u o, HandedOver s' u o → StoredOrder s.store.tables o) : Errands s' γ := by
  constructor
  case coherent => exact hstore ▸ h.coherent
  case orderly => exact hstore ▸ h.orderly
  case errand => exact hstore ▸ h.errand
  case announced => exact hstore ▸ hannounced

theorem errandRules_sound : errandRules.Sound app Always Errands where
  exec {s γ i ch o r s'} h _ ha he := by
    have he : s.exec i ch o = some (r, s') := he
    have hannounced : ∀ u id, HandedOver s' u id → StoredOrder s.store.tables id := by
      intro u id hu
      rcases handed_cases he hu with hold | ⟨m, rfl, hannounces⟩
      · exact h.announced u id hold
      · exact (h.errand i).placed id (ha u id hannounces)
    cases o with
    | sql q =>
      obtain ⟨a, store', hq, rfl, rfl⟩ := AppState.exec_sql he
      have hdelete : ∀ t id, q ≠ .stmt (.delete t id) := by
        rintro t id rfl
        exact ha
      obtain ⟨_, hT⟩ := h.orderly.growing.exec hq hdelete
      obtain ⟨g', hnext, hat⟩ := errand_sql (h.errand i) h.orderly.growing hq hT
      refine ⟨g', hnext, h.coherent.exec hq, h.orderly.lawful hq hdelete, ?_, ?_⟩
      · intro j
        by_cases hj : j = i
        · subst hj
          rw [Function.update_self]
          exact hat
        · rw [Function.update_of_ne hj]
          exact (h.errand j).frame (Store.exec_tx_other hq hj) hT
      · exact fun u id hu => (hannounced u id hu).within hT
    | sendToQueue m =>
      refine ⟨γ i, by cases r <;> rfl, ?_⟩
      rw [Function.update_eq_self]
      exact h.other (AppState.exec_store he (by simp)) hannounced
    | channelReady | randomUUID | dateNow | settle _ | publishStatusChanged _ =>
      refine ⟨γ i, by cases r <;> rfl, ?_⟩
      rw [Function.update_eq_self]
      exact h.other (AppState.exec_store he (by simp)) hannounced

end Sound

/-! The programs: `create`, and the worker with a delivery. -/

section Programs

variable {α β : Type} {g : Errand}

/-- What an operation of no transaction of its own may be, for a thread that
has placed `o`. -/
def Detached (placed : Option Uuid) : AppOp → Prop
  | .sendToQueue m => ∀ u o, Announces m u o → placed = some o
  | o => Neutral o

theorem detached_step {o : AppOp} (ho : Detached g.placed o) :
    errandAllowed g o ∧ ∀ r g', errandNext g o r g' →
      g'.isOpen = g.isOpen ∧ g'.placed = g.placed := by
  cases o with
  | sql q =>
    cases q with
    | startTransaction | commitTransaction | rollbackTransaction => exact ho.elim
    | stmt q =>
      refine ⟨by cases q <;> exact ho, ?_⟩
      intro r g' hn
      cases r with
      | error e =>
        have hfailed : g' = g.failed := by cases q <;> exact hn
        rw [hfailed]
        exact ⟨rfl, rfl⟩
      | ok a =>
        cases q with
        | insert t id row =>
          have hinserted : g' = g.inserted _ t := hn
          rw [hinserted]
          cases t <;> exact ⟨rfl, rfl⟩
        | select t cond =>
          rw [hn.1]
          exact ⟨rfl, rfl⟩
        | selectForUpdate | update | delete | malformed =>
          have hsame : g' = g := hn
          rw [hsame]
          exact ⟨rfl, rfl⟩
  | sendToQueue m =>
    refine ⟨ho, ?_⟩
    intro r g' hn
    have hsame : g' = g := by cases r <;> exact hn
    rw [hsame]
    exact ⟨rfl, rfl⟩
  | channelReady | randomUUID | dateNow | settle _ | publishStatusChanged _ =>
    refine ⟨trivial, ?_⟩
    intro r g' hn
    have hsame : g' = g := by cases r <;> exact hn
    rw [hsame]
    exact ⟨rfl, rfl⟩

theorem wp_detached {p : App α} (hp : p.Awaits (Detached g.placed)) :
    p.wp errandRules (fun _ g' => g'.isOpen = g.isOpen) (fun _ g' => g'.isOpen = g.isOpen) g := by
  refine wp_mono (Awaits.wp (I := fun g' => g'.isOpen = g.isOpen ∧ g'.placed = g.placed) ?_ hp
    ⟨rfl, rfl⟩) (fun _ _ h => h.1) (fun _ _ h => h.1)
  rintro g' o ⟨hopen, hplaced⟩ ho
  rw [← hplaced] at ho
  obtain ⟨hallowed, hnext⟩ := detached_step ho
  refine ⟨hallowed, ?_⟩
  intro r g'' hn
  obtain ⟨hopen', hplaced'⟩ := hnext r g'' hn
  exact ⟨hopen'.trans hopen, hplaced'.trans hplaced⟩

/-- A program that stops at the first error, and keeps the errand until then. -/
def Straight (p : App α) : Prop :=
  ∀ g, p.wp errandRules (fun _ g' => g' = g) (fun _ _ => True) g

theorem straight_pure (a : α) : Straight (pure a) := fun _ => rfl

theorem straight_throw (e : Thrown) : Straight (throw e : App α) := fun _ => trivial

theorem Straight.bind {p : App α} {f : α → App β} (hp : Straight p) (hf : ∀ a, Straight (f a)) :
    Straight (p >>= f) := by
  intro g
  refine (wp_bind _ _ _ _ _).mpr (wp_mono (hp g) ?_ (fun _ _ h => h))
  rintro a _ rfl
  exact hf a _

theorem straight_stmt {q : Stmt schema} (hdelete : ∀ t id, q ≠ .delete t id)
    (hinsert : ∀ id row, q ≠ .insert .orders id row) : Straight (sql (.stmt q)) := by
  intro g
  refine (wp_await _ _ _ _).mpr ⟨?_, ?_, fun _ _ _ => trivial⟩
  · cases q with
    | delete t id => exact absurd rfl (hdelete t id)
    | insert | select | selectForUpdate | update | malformed => trivial
  · intro a g' hn
    cases q with
    | delete t id => exact absurd rfl (hdelete t id)
    | select t cond => exact hn.1
    | insert t id row =>
      cases t with
      | orders => exact absurd rfl (hinsert id row)
      | users | products | orderItems | processedMessages => exact hn
    | selectForUpdate | update | malformed => exact hn

theorem straight_find (t : Table) (cond : Uuid → t.Row → Bool) : Straight (find t cond) :=
  straight_stmt (by simp) (by simp)

theorem straight_findOne (t : Table) (cond : Uuid → t.Row → Bool) : Straight (findOne t cond) :=
  (straight_find t cond).bind (fun _ => straight_pure _)

theorem straight_findOneForUpdate (t : Table) (id : String) : Straight (findOneForUpdate t id) := by
  unfold findOneForUpdate
  split
  · exact (straight_stmt (by simp) (by simp)).bind (fun _ => straight_pure _)
  · exact (straight_stmt (by simp) (by simp)).bind (fun a => nomatch (show Empty from a))

theorem straight_managerSave {t : Table} (ht : t ≠ .orders) (id : Uuid) (entity : t.Row) :
    Straight (managerSave t id entity) := by
  refine (straight_findOne t _).bind (fun found => ?_)
  split
  · exact straight_pure _
  · cases found with
    | some e => exact (straight_stmt (by simp) (by simp)).bind (fun _ => straight_pure _)
    | none =>
      refine (straight_stmt (by simp) ?_).bind (fun _ => straight_pure _)
      rintro id' row ⟨⟩
      exact ht rfl

theorem straight_createItem (orderId : Uuid) (item : CreateOrderItem) :
    Straight (createItem orderId item) := by
  refine (straight_findOneForUpdate .products _).bind (fun found => ?_)
  cases found with
  | none => exact straight_throw _
  | some e =>
    dsimp only
    split
    · exact straight_throw _
    · split
      · exact straight_throw _
      · refine (straight_managerSave (by simp) _ _).bind (fun _ => ?_)
        exact straight_stmt (by simp) (by simp)

theorem straight_createItems (orderId : Uuid) (items : List CreateOrderItem) :
    Straight (createItems orderId items) := by
  induction items with
  | nil => exact straight_pure _
  | cons item items ih =>
    exact (straight_createItem orderId item).bind (fun _ => ih.bind (fun _ => straight_pure _))

theorem wp_findOrderById (id : Uuid) (g : Errand) :
    (findOrderWithItems (fun j _ => j = id)).wp errandRules
      (fun a g' => g' = g ∧ ∀ e, a = some e → e.id = id) (fun _ _ => True) g := by
  refine (wp_bind _ _ _ _ _).mpr ((wp_bind _ _ _ _ _).mpr ((wp_await _ _ _ _).mpr
    ⟨trivial, ?_, fun _ _ _ => trivial⟩))
  rintro rows g' ⟨rfl, hrows⟩
  cases rows with
  | nil => exact ⟨rfl, nofun⟩
  | cons row rows =>
    have hid : row.1 = id := of_decide_eq_true (hrows row List.mem_cons_self)
    refine (wp_bind _ _ _ _ _).mpr (wp_mono (straight_find .orderItems _ _) ?_ (fun _ _ h => h))
    rintro items _ rfl
    refine ⟨rfl, ?_⟩
    rintro e he
    obtain rfl := Option.some.inj he
    exact hid

theorem wp_end_errand {o : Op schema} (ho : o = .commitTransaction ∨ o = .rollbackTransaction)
    (g : Errand) :
    (sql o).wp errandRules (fun _ g' => g'.isOpen = false) (fun _ g' => g'.isOpen = false) g := by
  rcases ho with rfl | rfl
  · refine (wp_await _ _ _ _).mpr ⟨trivial, ?_, ?_⟩
    · rintro _ _ rfl
      rfl
    · rintro _ _ rfl
      rfl
  · refine (wp_await _ _ _ _).mpr ⟨trivial, ?_, ?_⟩
    · rintro _ _ rfl
      rfl
    · rintro _ _ rfl
      rfl

/-- The order that is answered was committed. -/
theorem wp_createInTransaction_errand (dto : CreateOrderDto) (userId : Uuid)
    (key : Option String) (placed : Option Uuid) :
    (createInTransaction dto userId key).wp errandRules
      (fun a g => g = ⟨false, none, some a.id⟩) (fun _ _ => True) ⟨true, none, placed⟩ := by
  refine (wp_bind _ _ _ _ _).mpr ((wp_await _ _ _ _).mpr ⟨trivial, ?_, fun _ _ _ => trivial⟩)
  rintro savedOrder _ rfl
  refine (wp_bind _ _ _ _ _).mpr (wp_mono (straight_createItems _ _ _) ?_ (fun _ _ h => h))
  rintro _ _ rfl
  refine (wp_bind _ _ _ _ _).mpr (wp_mono (wp_findOrderById _ _) ?_ (fun _ _ h => h))
  rintro found _ ⟨rfl, hid⟩
  cases found with
  | none => trivial
  | some createdOrder =>
    refine (wp_bind _ _ _ _ _).mpr ((wp_await _ _ _ _).mpr ⟨trivial, ?_, fun _ _ _ => trivial⟩)
    rintro _ _ rfl
    have hid' := hid createdOrder rfl
    change (⟨false, none, some savedOrder.1⟩ : Errand) = ⟨false, none, some createdOrder.id⟩
    rw [hid']

/-- A program that leaves no transaction open. -/
def Ends (p : App α) : Prop :=
  ∀ g : Errand, g.isOpen = false → p.wp errandRules (fun _ g' => g'.isOpen = false)
    (fun _ g' => g'.isOpen = false) g

theorem Ends.bind {p : App α} {f : α → App β} (hp : Ends p) (hf : ∀ a, Ends (f a)) :
    Ends (p >>= f) := by
  intro g hg
  exact (wp_bind _ _ _ _ _).mpr (wp_mono (hp g hg) hf (fun _ _ h => h))

theorem Ends.tryCatch {p : App α} {f : Thrown → App α} (hp : Ends p) (hf : ∀ e, Ends (f e)) :
    Ends (tryCatch p f) := by
  intro g hg
  exact (wp_tryCatch _ _ _ _ _).mpr (wp_mono (hp g hg) (fun _ _ h => h) hf)

theorem ends_detached {p : App α} (hp : p.Awaits (Detached none)) : Ends p := by
  intro g hg
  have hdetached : p.Awaits (Detached g.placed) := by
    refine hp.mono ?_
    intro o ho
    cases o with
    | sendToQueue m => exact fun u id hm => nomatch ho u id hm
    | sql _ | channelReady | randomUUID | dateNow | settle _ | publishStatusChanged _ => exact ho
  exact wp_mono (wp_detached hdetached) (fun _ _ h => h.trans hg) (fun _ _ h => h.trans hg)

theorem ends_pure (a : α) : Ends (pure a) := fun _ hg => hg

theorem ends_throw (e : Thrown) : Ends (throw e : App α) := fun _ hg => hg

theorem wp_createFailed_errand (key : Option String) (error : Thrown) (g : Errand) :
    (createFailed key error).wp errandRules (fun _ g' => g'.isOpen = false)
      (fun _ g' => g'.isOpen = false) g := by
  refine (wp_bind _ _ _ _ _).mpr (wp_mono (wp_end_errand (.inr rfl) g) ?_ (fun _ _ h => h))
  rintro _ g' hclosed
  split
  · refine (ends_detached (awaits_findByKey (fun _ _ => trivial) key)).bind ?_ g' hclosed
    intro found
    cases found with
    | none => exact ends_throw _
    | some e => exact ends_pure _
  · exact hclosed

theorem ends_createOrder (dto : CreateOrderDto) (userId : Uuid) (key : Option String) :
    Ends (createOrder dto userId key) := by
  intro g hg
  refine (wp_bind _ _ _ _ _).mpr ((wp_await _ _ _ _).mpr ⟨hg, ?_, ?_⟩)
  · rintro _ _ rfl
    refine (wp_bind _ _ _ _ _).mpr ((wp_tryCatch _ _ _ _ _).mpr ?_)
    refine (wp_bind _ _ _ _ _).mpr ?_
    refine wp_mono (wp_createInTransaction_errand dto userId key g.placed) ?_ ?_
    · rintro createdOrder _ rfl
      have hsend : ∀ m u, Announces m u createdOrder.id →
          Detached (some createdOrder.id) (.sendToQueue m) := by
        intro m u hm u' o hm'
        have hfield := hm.orderId.symm.trans hm'.orderId
        exact congrArg some (uuidOut_injective (Json.str.inj (Option.some.inj hfield)))
      refine (wp_bind _ _ _ _ _).mpr ?_
      exact wp_detached (g := ⟨false, none, some createdOrder.id⟩)
        (awaits_announcement trivial trivial hsend)
    · intro error g' _
      exact (wp_bind _ _ _ _ _).mpr (wp_createFailed_errand key error g')
  · rintro error _ rfl
    exact hg

theorem ends_create (call : CreateCall) : Ends call.program := by
  refine (ends_detached (awaits_findByKey (fun _ _ => trivial) _)).bind ?_
  intro found
  cases found with
  | some e => exact ends_pure _
  | none =>
    dsimp only
    split
    · exact ends_throw _
    · refine (ends_detached (awaits_findOneById (fun _ => trivial) (fun _ => trivial) _)).bind ?_
      intro user
      cases user with
      | none => exact ends_throw _
      | some u => exact ends_createOrder call.dto u.1 _

theorem errandNext_isOpen {o : AppOp} {r : Except Thrown o.Ans} {g' : Errand}
    (h : errandNext g o r g') : g'.isOpen = opens g.isOpen o r := by
  cases o with
  | sql q =>
    cases q with
    | startTransaction | commitTransaction | rollbackTransaction =>
      cases r with
      | ok a =>
        obtain rfl := h
        rfl
      | error e =>
        obtain rfl := h
        rfl
    | stmt q =>
      have hsame : opens g.isOpen (.sql (.stmt q)) r = g.isOpen := by cases r <;> rfl
      have hdetached : errandNext g (.sql (.stmt q)) r g' → g'.isOpen = g.isOpen := by
        intro hn
        cases r with
        | error e =>
          have hfailed : g' = g.failed := by cases q <;> exact hn
          rw [hfailed]
          rfl
        | ok a =>
          cases q with
          | insert t id row =>
            have hinserted : g' = g.inserted _ t := hn
            rw [hinserted]
            cases t <;> rfl
          | select t cond => rw [hn.1]
          | selectForUpdate | update | delete | malformed =>
            have hkept : g' = g := hn
            rw [hkept]
      rw [hsame]
      exact hdetached h
  | channelReady | randomUUID | dateNow | settle _ | publishStatusChanged _ | sendToQueue _ =>
    have hsame : g' = g := by cases r <;> exact h
    rw [hsame]
    rfl

theorem Tidy.ends {p : App α} (hp : Tidy p) (ho : p.Awaits Internal) : Ends p := by
  intro g hg
  refine wp_mono (wp_simulation (R := fun b g => b = g.isOpen) ?_ hg.symm (ho.wp_only hp)) ?_ ?_
  · rintro b g o rfl ⟨htidy, hinternal⟩
    refine ⟨?_, fun r g' hn => ⟨opens g.isOpen o r, rfl, (errandNext_isOpen hn).symm⟩⟩
    cases o with
    | sql q => exact htidy
    | dateNow | publishStatusChanged _ => trivial
    | channelReady | randomUUID | settle _ | sendToQueue _ => exact hinternal.elim
  · rintro a g ⟨_, rfl, h⟩
    exact h
  · rintro e g ⟨_, rfl, h⟩
    exact h

/-- The copies of a worker announce nothing. -/
theorem detached_copy {m : Published} (hm : m.queue ≠ AppState.processQueue) :
    Detached none (.sendToQueue m) :=
  fun _ _ h => absurd h.queue hm

section Consumer

variable (config : WorkerConfig) (describe : Thrown → String)

theorem ends_failed (payload : Json) (reason : String) :
    Ends (if config.maxAttempts - 1 ≤ attemptOf payload then
        deadLetter payload (attemptOf payload) reason
      else retryLater config payload (attemptOf payload) reason) := by
  split
  · exact ends_detached (awaits_stamped trivial id (fun _ => awaits_publishAndAck trivial trivial
      (detached_copy (by simp [AppState.dlqQueue, AppState.processQueue])) _ _))
  · exact ends_detached (awaits_stamped trivial _ (fun _ => awaits_publishAndAck trivial trivial
      (detached_copy (by simp [AppState.retryQueue, AppState.processQueue])) _ _))

theorem ends_onMessage (message : Content) :
    Ends (onMessage config describe processOrderMessage message) := by
  refine Ends.tryCatch ?_ (fun _ => ends_detached (awaits_await trivial))
  cases message with
  | invalid raw =>
    exact ends_detached (awaits_publishAndAck trivial trivial
      (detached_copy (by simp [AppState.dlqQueue, AppState.processQueue])) _ _)
  | json payload =>
    by_cases hnull : payload = .null
    · subst hnull
      exact ends_throw _
    · rw [handleMessage_payload hnull]
      refine Ends.tryCatch ?_ (fun _ => ends_failed config payload _)
      have hprocess := fun message => (tidy_processOrderMessage message).ends
        (internal_processOrderMessage message)
      refine (hprocess _).bind (fun _ => Ends.bind ?_ (fun _ => ends_detached (awaits_await trivial)))
      unfold logDeliveryResult
      split
      · exact ends_pure _
      · exact ends_throw _

end Consumer

end Programs

/-! The whole system. -/

section System

variable {config : WorkerConfig} {describe : Thrown → String} {c c' : Config app Unit}
  {γ : Nat → Errand} {s s' : AppState}

def Errand.AtEnd (g : Errand) : Prop := g.isOpen = false

theorem Errands.shared (h : Errands s γ) (hstore : s'.store = s.store)
    (hpub : s'.published = s.published) : Errands s' γ := by
  refine h.other hstore ?_
  rintro u o ⟨e, hmem, hannounces⟩
  rw [hpub] at hmem
  exact h.announced u o ⟨e, hmem, hannounces⟩

theorem errands_crash (h : Errands s γ) (i : Nat) :
    Errands (s.crash i) (Function.update γ i .idle) := by
  have hstore : (s.crash i).store = s.store.close i := AppState.crash_store _ i
  constructor
  case coherent => exact hstore ▸ h.coherent.close i
  case orderly => exact hstore ▸ h.orderly.close Lawful.merges i
  case errand =>
    intro j
    rw [hstore]
    by_cases hj : j = i
    · subst hj
      rw [Function.update_self]
      exact ⟨by rw [Store.close_tx_self]; rfl, nofun, nofun⟩
    · rw [Function.update_of_ne hj]
      exact (h.errand j).frame (Store.close_tx_other _ hj) (fun _ _ hr => hr)
  case announced =>
    rw [hstore]
    rintro u o ⟨e, hmem, hannounces⟩
    rw [AppState.crash_published] at hmem
    exact h.announced u o ⟨e, hmem, hannounces⟩

theorem errands_crew (A : Content → Prop) (config : WorkerConfig) (describe : Thrown → String) :
    Crew errandRules Errands Errand.AtEnd Errand.AtEnd A config describe where
  sound := errandRules_sound
  arrive _ h := h.shared rfl rfl
  deliver {s γ i k body} h hidle _ := by
    refine ⟨γ i, ?_, ends_onMessage config describe body (γ i) hidle⟩
    rw [Function.update_eq_self]
    exact h.shared rfl rfl
  crash {s γ i} h := ⟨.idle, rfl, errands_crash h i⟩
  expire h _ := h.shared rfl rfl

abbrev Tended : Config app Unit → (Nat → Errand) → Prop :=
  Manned errandRules Errands Errand.AtEnd Errand.AtEnd

theorem tended_start (hs : s.Quiet) (hlawful : Lawful s.store.tables) (calls : List CreateCall) :
    Tended (consuming s (calls.map .create)) (fun _ => .idle) := by
  refine ⟨⟨⟨hs.coherent, .quiet hlawful hs.tx, ?_, ?_⟩, ?_⟩, fun _ _ => rfl⟩
  · intro i
    have htx : s.store.tx i = none := hs.tx i
    exact ⟨congrArg Option.isSome htx, nofun, nofun⟩
  · rintro u o ⟨e, hmem, _⟩
    have hmem : e ∈ s.published := hmem
    rw [hs.published] at hmem
    cases hmem
  · intro i p hp
    obtain ⟨operation, hoperation, rfl⟩ := Option.map_eq_some_iff.mp hp
    rw [List.getElem?_map] at hoperation
    obtain ⟨call, _, rfl⟩ := Option.map_eq_some_iff.mp hoperation
    refine Ends.bind (Ends.bind (ends_create call) ?_) (fun _ => ends_pure ()) .idle rfl
    exact fun result => ends_pure (Sum.inl result : CreateResult ⊕ JobResult)

theorem Tended.tx_none (h : Tended c γ) {i : Nat} (hi : ∀ o k, c.thread i ≠ some (.op o k)) :
    c.shared.store.tx i = none := by
  have hopen := (h.follows.inv.errand i).isOpen
  have hend : (γ i).isOpen = false := (or_self _).mp (h.ended hi)
  rw [hend] at hopen
  exact Option.isNone_iff_eq_none.mp (Option.isSome_eq_false_iff.mp hopen)

end System

end Ecomm
