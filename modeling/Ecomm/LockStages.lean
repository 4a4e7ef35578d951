import Ecomm.Lib.Frame
import Ecomm.LockOrder

/-! How far a call has come with its locks, and what it may still lock from
there. A call of the worker locks its marker first and then its order, a
purchase locks its order first and then its products in their order, and the
other calls lock all that they need by one statement. -/

namespace Ecomm

open Concurrent Sql

/-- `buying` lists the products that the transaction has locked, with their skus. -/
inductive Stage where
  | idle
  | fresh
  | marked
  | buying (named : List (Uuid × String))
  | wrote

namespace Stage

/-- The transaction holds no lock on what a row of table `t` needs. -/
def early (g : Stage) (t : Table) : Prop :=
  g = .idle ∨ g = .fresh ∨ g = .marked ∧ t ≠ .processedMessages

def inserted : Stage → Table → Stage
  | .idle, _ => .idle
  | .fresh, .processedMessages => .marked
  | .fresh, .orders => .buying []
  | .buying named, _ => .buying named
  | _, _ => .wrote

def updated : Stage → Stage
  | .idle => .idle
  | .buying named => .buying named
  | _ => .wrote

def locked (g : Stage) (p : Uuid) : (t : Table) → Option t.Row → Stage
  | .products, some row =>
    match g with
    | .buying named => .buying ((p, row.sku) :: named)
    | _ => g
  | _, _ => g

/-- After an error nothing is locked. -/
def failed : Stage → Stage
  | .idle => .idle
  | _ => .fresh

/-- A product that the transaction has locked is found again with its sku. -/
def Finds (g : Stage) : (t : Table) → (Uuid → t.Row → Bool) → List (Uuid × t.Row) → Prop
  | .products, cond, rows => ∀ named, g = .buying named → ∀ e ∈ named,
      cond = (fun j _ => decide (j = e.1)) → ∃ r : Product, r.sku = e.2 ∧ rows.head? = some (e.1, r)
  | _, _, _ => True

end Stage

def stageAllowed (rank : Uuid → Nat) (g : Stage) : AppOp → Prop
  | .sql .startTransaction => g = .idle
  | .sql (.stmt (.selectForUpdate t p)) => t = .products ∧ ∃ named, g = .buying named ∧
      (p ∈ named.map (·.1) ∨ ∀ q ∈ named.map (·.1), rank q < rank p)
  | .sql (.stmt (.update .products p set)) => g.early .products ∨ ∃ named s, g = .buying named ∧
      (p, s) ∈ named ∧ ∀ now r, r.sku = s → (set now r).sku = s
  | .sql (.stmt (.update t _ _)) => g.early t
  | .sql (.stmt (.insert t id _)) => g.early t ∨
      ∃ named, g = .buying named ∧ t = .orderItems ∧ id = none
  | .sql (.stmt (.delete _ _)) => False
  | _ => True

def stageNext (g : Stage) : (o : AppOp) → Except Thrown o.Ans → Stage → Prop
  | .sql .startTransaction, .ok _, g' => g' = .fresh
  | .sql .startTransaction, .error _, g' => g' = g
  | .sql .commitTransaction, _, g' => g' = .idle
  | .sql .rollbackTransaction, _, g' => g' = .idle
  | .sql (.stmt (.select t cond)), .ok rows, g' => g' = g ∧ g.Finds t cond rows
  | .sql (.stmt (.selectForUpdate t p)), .ok row, g' => g' = g.locked p t row
  | .sql (.stmt (.insert t _ _)), .ok _, g' => g' = g.inserted t
  | .sql (.stmt (.update _ _ _)), .ok row, g' =>
    g' = if (show Option _ from row).isSome then g.updated else g
  | .sql (.stmt _), .ok _, g' => g' = g
  | .sql (.stmt _), .error _, g' => g' = g ∨ g' = g.failed
  | _, _, g' => g' = g

def stageRules (rank : Uuid → Nat) : Protocol AppOp AppOp.Ans Thrown Stage where
  allowed := stageAllowed rank
  next := stageNext

/-- The locks and the rows of a purchase in progress. -/
structure Buying (store : Store schema) (i : Nat) (named : List (Uuid × String)) : Prop where
  isOpen : store.tx i ≠ none
  rows : ∀ p, store.owner (.row .products p) = some i ↔ p ∈ named.map (·.1)
  keys : ∀ s, store.owner (.key (.sku s)) = some i → s ∈ named.map (·.2)
  committed : ∀ e ∈ named, ∃ r, (store.tables .products).lookup e.1 = some r ∧ r.sku = e.2
  seen : ∀ e ∈ named, ∃ r, (store.view i .products).lookup e.1 = some r ∧ r.sku = e.2

def AtStage (store : Store schema) (i : Nat) : Stage → Prop
  | .idle => store.tx i = none
  | .fresh => store.tx i ≠ none ∧ ∀ l, store.owner l ≠ some i
  | .marked => store.tx i ≠ none ∧
      ∀ l, store.owner l = some i → ∃ m, l = .row .processedMessages m
  | .buying named => Buying store i named
  | .wrote => store.tx i ≠ none

structure Staged (s : AppState) (γ : Nat → Stage) : Prop where
  coherent : s.store.Coherent
  stage : ∀ i, AtStage s.store i (γ i)

section Sound

variable {rank : Uuid → Nat} {store store' : Store schema} {i : Nat} {g : Stage}
  {named : List (Uuid × String)}

theorem AtStage.frame (h : AtStage store i g) (f : Store.Frame store store' i) :
    AtStage store' i g := by
  cases g with
  | idle => exact f.tx.trans h
  | fresh => exact ⟨by rw [f.tx]; exact h.1, fun l hl => h.2 l ((f.owner l).mp hl)⟩
  | marked => exact ⟨by rw [f.tx]; exact h.1, fun l hl => h.2 l ((f.owner l).mp hl)⟩
  | wrote =>
    have hopen : store.tx i ≠ none := h
    rw [← f.tx] at hopen
    exact hopen
  | buying named =>
    have hb : Buying store i named := h
    have hown : ∀ e ∈ named, store.owner (.row .products e.1) = some i :=
      fun e he => (hb.rows e.1).mpr (List.mem_map_of_mem he)
    constructor
    case isOpen => rw [f.tx]; exact hb.isOpen
    case rows => exact fun p => (f.owner _).trans (hb.rows p)
    case keys => exact fun s hs => hb.keys s ((f.owner _).mp hs)
    case committed =>
      intro e he
      rw [f.row .products e.1 (hown e he)]
      exact hb.committed e he
    case seen =>
      intro e he
      rw [f.view_row (hown e he)]
      exact hb.seen e he

theorem atStage_closed (htx : store.tx i = none) : AtStage store i .idle := htx

/-- A failed statement leaves the stage, or it has ended the transaction's locks. -/
theorem atStage_failed (h : AtStage store i g)
    (hstore : store' = store ∨ store' = store.abort i) :
    ∃ g', (g' = g ∨ g' = g.failed) ∧ AtStage store' i g' := by
  rcases hstore with rfl | rfl
  · exact ⟨g, .inl rfl, h⟩
  · cases htx : store.tx i with
    | none =>
      rw [Store.abort_none htx]
      exact ⟨g, .inl rfl, h⟩
    | some x =>
      have hg : g.failed = .fresh := by
        cases g with
        | idle =>
          have hnone : store.tx i = none := h
          rw [htx] at hnone
          cases hnone
        | _ => rfl
      refine ⟨.fresh, .inr hg.symm, ?_, ?_⟩
      · rw [Store.abort_tx_self htx]
        simp
      · intro l hl
        have howner : (store.abort i).owner = store.released i := by simp [Store.abort, htx]
        rw [howner] at hl
        exact Store.released_self store i l hl

theorem perform_owner_self {x : Tx schema} (hx : store.tx i = some x)
    {ls : List (Resource schema)} {ws : List (Write schema)} {l : Resource schema} :
    (store.perform i ls ws).owner l = some i ↔ l ∈ ls ∨ store.owner l = some i := by
  simp only [Store.perform, hx]
  split
  · next hmem => exact iff_of_true rfl (.inl hmem)
  · next hmem => simp [hmem]

theorem open_perform {x : Tx schema} (hx : store.tx i = some x) (ls : List (Resource schema))
    (ws : List (Write schema)) : (store.perform i ls ws).tx i ≠ none := by
  rw [Store.perform_tx_some hx]
  simp

theorem write_lock_cases {T : Database} {t : Table} {id : Uuid} {r : t.Row} {l : Resource schema}
    (h : l ∈ (⟨t, id, some r⟩ : Write schema).locks T) :
    l = .row t id ∨ ∃ k, l = .key k ∧
      ((∃ old, (T t).lookup id = some old ∧ k ∈ uniqueKeys t old) ∨ k ∈ uniqueKeys t r) := by
  rcases List.mem_cons.mp h with h | h
  · exact .inl h
  · right
    rcases List.mem_append.mp h with h | h
    · cases hold : (T t).lookup id with
      | none => simp [keyLocks, hold] at h
      | some old =>
        simp only [keyLocks, hold, Option.elim_some] at h
        obtain ⟨k, hk, rfl⟩ := List.mem_map.mp h
        exact ⟨k, rfl, .inl ⟨old, rfl, hk⟩⟩
    · obtain ⟨k, hk, rfl⟩ := List.mem_map.mp h
      exact ⟨k, rfl, .inr hk⟩

theorem sku_of_mem {t : Table} {r : t.Row} {s : String} (h : UniqueKey.sku s ∈ uniqueKeys t r) :
    t = .products := by
  cases t with
  | products => rfl
  | users | orders | orderItems | processedMessages => simp [uniqueKeys] at h

/-- A row of another table than the products, written by a purchase. -/
theorem Buying.wrote_other (h : Buying store i named) {t : Table} {id : Uuid} {r : t.Row}
    (ht : t ≠ .products) {T : Database} :
    Buying (store.perform i ((⟨t, id, some r⟩ : Write schema).locks T)
      [(⟨t, id, some r⟩ : Write schema)]) i named := by
  obtain ⟨x, hx⟩ := Option.ne_none_iff_exists'.mp h.isOpen
  have hrow : ∀ p, (.row .products p : Resource schema) ∉
      (⟨t, id, some r⟩ : Write schema).locks T := by
    intro p hp
    rcases write_lock_cases hp with hp | ⟨k, hk, _⟩
    · exact ht (Resource.row.inj hp).1.symm
    · cases hk
  have hkey : ∀ s, (.key (.sku s) : Resource schema) ∉
      (⟨t, id, some r⟩ : Write schema).locks T := by
    intro s hs
    rcases write_lock_cases hs with hs | ⟨k, hk, hs⟩
    · cases hs
    · obtain rfl := Resource.key.inj hk
      rcases hs with ⟨old, _, hs⟩ | hs
      · exact ht (sku_of_mem hs)
      · exact ht (sku_of_mem hs)
  constructor
  case isOpen => exact open_perform hx _ _
  case rows =>
    intro p
    rw [perform_owner_self hx, h.rows p]
    exact or_iff_right (hrow p)
  case keys =>
    intro s hs
    rw [perform_owner_self hx] at hs
    exact h.keys s (hs.resolve_left (hkey s))
  case committed =>
    rw [Store.perform_tables_some hx]
    exact h.committed
  case seen =>
    intro e he
    rw [Store.perform_view, Tables.replay_single, Tables.write_other_table _ ht]
    exact h.seen e he

/-- A product that the purchase has locked, written with its sku. -/
theorem Buying.wrote_product (h : Buying store i named) {p : Uuid} {s : String}
    (hp : (p, s) ∈ named) {row : Product} (hrow : row.sku = s) :
    Buying (store.perform i ((⟨.products, p, some row⟩ : Write schema).locks (store.view i))
      [(⟨.products, p, some row⟩ : Write schema)]) i named := by
  obtain ⟨x, hx⟩ := Option.ne_none_iff_exists'.mp h.isOpen
  have hmem : p ∈ named.map (·.1) := List.mem_map_of_mem hp
  constructor
  case isOpen => exact open_perform hx _ _
  case rows =>
    intro q
    rw [perform_owner_self hx, h.rows q]
    refine or_iff_right_of_imp ?_
    intro hq
    rcases write_lock_cases hq with hq | ⟨k, hk, _⟩
    · rw [(Resource.row.inj hq).2]
      exact hmem
    · cases hk
  case keys =>
    intro s' hs
    rw [perform_owner_self hx] at hs
    rcases hs with hs | hs
    · rcases write_lock_cases hs with hs | ⟨k, hk, hs⟩
      · cases hs
      · obtain rfl := Resource.key.inj hk
        obtain ⟨r, hr, hsku⟩ := h.seen _ hp
        have hs' : s' = s := by
          rcases hs with ⟨old, hold, hs⟩ | hs
          · obtain rfl := Option.some.inj (hold.symm.trans hr)
            simpa [uniqueKeys, hsku] using hs
          · simpa [uniqueKeys, hrow] using hs
        rw [hs']
        exact List.mem_map_of_mem hp
    · exact h.keys s' hs
  case committed =>
    rw [Store.perform_tables_some hx]
    exact h.committed
  case seen =>
    intro e he
    rw [Store.perform_view, Tables.replay_single]
    by_cases hep : e.1 = p
    · obtain ⟨r, hr, hsku⟩ := h.seen e he
      obtain ⟨r', hr', hsku'⟩ := h.seen _ hp
      rw [hep] at hr
      obtain rfl := Option.some.inj (hr.symm.trans hr')
      refine ⟨row, ?_, hrow.trans (hsku'.symm.trans hsku)⟩
      rw [hep]
      exact Tables.lookup_write_self (S := schema) _ _ _ _
    · obtain ⟨r, hr, hsku⟩ := h.seen e he
      refine ⟨r, ?_, hsku⟩
      rw [Tables.lookup_write_other (S := schema)]
      · exact hr
      · exact fun hat => hep hat.2.symm

theorem Buying.locked (hc : store.Coherent) (h : Buying store i named) {p : Uuid} {row : Product}
    (hrow : (store.view i .products).lookup p = some row) :
    Buying (store.perform i [.row .products p] []) i ((p, row.sku) :: named) := by
  obtain ⟨x, hx⟩ := Option.ne_none_iff_exists'.mp h.isOpen
  have hcommitted : ∃ r, (store.tables .products).lookup p = some r ∧ r.sku = row.sku := by
    by_cases hmem : p ∈ named.map (·.1)
    · obtain ⟨e, he, rfl⟩ := List.mem_map.mp hmem
      obtain ⟨r, hr, hsku⟩ := h.committed e he
      obtain ⟨r', hr', hsku'⟩ := h.seen e he
      obtain rfl := Option.some.inj (hrow.symm.trans hr')
      exact ⟨r, hr, hsku.trans hsku'.symm⟩
    · have hunwritten : ∀ w ∈ x.writes, ¬ w.at .products p := by
        rintro w hw ⟨ht, hid⟩
        have hown := hc.rowOwned i x w hx hw
        rw [ht, hid] at hown
        exact hmem ((h.rows p).mp hown)
      rw [Store.view_some hx, Tables.lookup_replay_other _ hunwritten] at hrow
      exact ⟨row, hrow, rfl⟩
  constructor
  case isOpen => exact open_perform hx _ _
  case rows =>
    intro q
    rw [perform_owner_self hx, h.rows q]
    simp
  case keys =>
    intro s hs
    rw [perform_owner_self hx] at hs
    have hs' := h.keys s (hs.resolve_left (by simp))
    exact List.mem_cons_of_mem _ hs'
  case committed =>
    rw [Store.perform_tables_some hx]
    exact List.forall_mem_cons.mpr ⟨hcommitted, h.committed⟩
  case seen =>
    rw [Store.perform_view, Tables.replay_nil]
    exact List.forall_mem_cons.mpr ⟨⟨row, hrow, rfl⟩, h.seen⟩

theorem Buying.begin {x : Tx schema} (hx : store.tx i = some x)
    (hfree : ∀ l, store.owner l ≠ some i) {o : Uuid} {order : Order} {T : Database} :
    Buying (store.perform i ((⟨.orders, o, some order⟩ : Write schema).locks T)
      [(⟨.orders, o, some order⟩ : Write schema)]) i [] := by
  have hempty : Buying store i [] := by
    refine ⟨by simp [hx], ?_, ?_, nofun, nofun⟩
    · exact fun p => iff_of_false (hfree _) (by simp)
    · exact fun s hs => absurd hs (hfree _)
  exact hempty.wrote_other (by simp)

theorem atStage_inserted (h : AtStage store i g) {t : Table} {id : Option Uuid}
    {row : Nat → t.Row} (ha : stageAllowed rank g (.sql (.stmt (.insert t id row)))) {j : Uuid}
    {r : t.Row} {T : Database} :
    AtStage (store.perform i ((⟨t, j, some r⟩ : Write schema).locks T)
      [(⟨t, j, some r⟩ : Write schema)]) i (g.inserted t) := by
  cases g with
  | idle => exact Store.perform_tx_none h _ _
  | wrote =>
    rcases ha with (ha | ha | ⟨ha, _⟩) | ⟨_, ha, _⟩ <;> cases ha
  | buying named =>
    rcases ha with (ha | ha | ⟨ha, _⟩) | ⟨_, _, rfl, _⟩
    · cases ha
    · cases ha
    · cases ha
    · exact Buying.wrote_other h (by simp)
  | marked =>
    obtain ⟨x, hx⟩ := Option.ne_none_iff_exists'.mp h.1
    exact open_perform hx _ _
  | fresh =>
    obtain ⟨x, hx⟩ := Option.ne_none_iff_exists'.mp h.1
    cases t with
    | orders => exact Buying.begin hx h.2
    | users | products | orderItems => exact open_perform hx _ _
    | processedMessages =>
      refine ⟨open_perform hx _ _, ?_⟩
      intro l hl
      rw [perform_owner_self hx] at hl
      rcases write_lock_cases (hl.resolve_right (h.2 l)) with hl | ⟨k, _, hk⟩
      · exact ⟨j, hl⟩
      · simp [uniqueKeys] at hk

theorem atStage_updated (h : AtStage store i g) {t : Table} {p : Uuid}
    {set : Nat → t.Row → t.Row} (ha : stageAllowed rank g (.sql (.stmt (.update t p set))))
    {now : Nat} {old : t.Row} (hold : (store.view i t).lookup p = some old) :
    AtStage (store.perform i ((⟨t, p, some (set now old)⟩ : Write schema).locks (store.view i))
      [(⟨t, p, some (set now old)⟩ : Write schema)]) i g.updated := by
  cases g with
  | idle => exact Store.perform_tx_none h _ _
  | fresh | marked =>
    obtain ⟨x, hx⟩ := Option.ne_none_iff_exists'.mp h.1
    exact open_perform hx _ _
  | wrote =>
    obtain ⟨x, hx⟩ := Option.ne_none_iff_exists'.mp h
    exact open_perform hx _ _
  | buying named =>
    have hb : Buying store i named := h
    cases t with
    | products =>
      rcases ha with (ha | ha | ⟨ha, _⟩) | ⟨_, s, ha, hp, hset⟩
      · cases ha
      · cases ha
      · cases ha
      · cases ha
        obtain ⟨r, hr, hsku⟩ := hb.seen _ hp
        obtain rfl := Option.some.inj (hr.symm.trans hold)
        exact hb.wrote_product hp (hset now r hsku)
    | users | orders | orderItems | processedMessages =>
      rcases ha with ha | ha | ⟨ha, _⟩ <;> cases ha

theorem atStage_finds (h : AtStage store i g) (t : Table) (cond : Uuid → t.Row → Bool) :
    g.Finds t cond (((store.view i t).entries.filter (fun e => cond e.1 e.2)).map
      (fun e => (e.1, e.2))) := by
  cases t with
  | products =>
    rintro named rfl e he rfl
    have hb : Buying store i named := h
    obtain ⟨r, hr, hsku⟩ := hb.seen e he
    refine ⟨r, hsku, ?_⟩
    rw [head_rows_id (store.view i .products) e.1, hr]
    rfl
  | users | orders | orderItems | processedMessages => trivial

theorem atStage_done (hc : store.Coherent) (h : AtStage store i g) {c : Choice schema}
    {q : Stmt schema} {ls : List (Resource schema)} {a : q.Ans} {ws : List (Write schema)}
    (ha : stageAllowed rank g (.sql (.stmt q))) (hq : q.Success (store.view i) c ls a ws) :
    ∃ g', stageNext g (.sql (.stmt q)) (.ok a) g' ∧ AtStage (store.perform i ls ws) i g' := by
  have hsame : AtStage (store.perform i [] []) i g := by
    rw [Store.perform_nil]
    exact h
  cases hq with
  | select t cond =>
    exact ⟨g, ⟨rfl, atStage_finds h t cond⟩, hsame⟩
  | lockMissing t id hnone =>
    obtain ⟨rfl, _⟩ := ha
    exact ⟨g, rfl, hsame⟩
  | lock t id row hrow =>
    obtain ⟨rfl, named, rfl, _⟩ := ha
    exact ⟨_, rfl, Buying.locked hc h hrow⟩
  | insert t id row hnew hallow => exact ⟨_, rfl, atStage_inserted h ha⟩
  | updateMissing t id set hnone => exact ⟨g, rfl, hsame⟩
  | update t id set old hold hallow => exact ⟨_, rfl, atStage_updated h ha hold⟩
  | deleteMissing t id hnone => exact ha.elim
  | delete t id old ws hold hws => exact ha.elim

theorem stageRules_sound (rank : Uuid → Nat) : (stageRules rank).Sound app Always Staged where
  exec {s γ i ch o r s'} hinv _ ha he := by
    have he : AppState.exec s i ch o = some (r, s') := he
    have hown := hinv.stage i
    have hstep : ∀ g, stageNext (γ i) o r g → s'.store.Coherent →
        (∀ j, j ≠ i → Store.Frame s.store s'.store j) → AtStage s'.store i g →
        ∃ g, (stageRules rank).next (γ i) o r g ∧ Staged s' (Function.update γ i g) := by
      intro g hnext hcoherent hframe hg
      refine ⟨g, hnext, hcoherent, ?_⟩
      intro j
      by_cases hj : j = i
      · subst hj
        rw [Function.update_self]
        exact hg
      · rw [Function.update_of_ne hj]
        exact (hinv.stage j).frame (hframe j hj)
    cases o with
    | channelReady | randomUUID | dateNow | settle _ | publishStatusChanged _ | sendToQueue _ =>
      have hstore : s'.store = s.store := AppState.exec_store he (by simp)
      refine hstep (γ i) rfl ?_ ?_ ?_
      · rw [hstore]
        exact hinv.coherent
      · intro j _
        rw [hstore]
        exact ⟨rfl, fun _ => Iff.rfl, fun _ _ _ => rfl⟩
      · rw [hstore]
        exact hown
    | sql q =>
      obtain ⟨a, store, hexec, rfl, rfl⟩ := AppState.exec_sql he
      have hcoherent := hinv.coherent.exec hexec
      have hframe : ∀ j, j ≠ i → Store.Frame s.store store j :=
        fun j hj => hinv.coherent.frame hj hexec
      cases Store.exec_step hexec with
      | startFault => exact hstep (γ i) rfl hcoherent hframe hown
      | start =>
        have hidle : γ i = .idle := ha
        rw [hidle] at hown
        refine hstep .fresh rfl hcoherent hframe ⟨by simp, ?_⟩
        exact fun l => hinv.coherent.owner_none hown l
      | commitNone htx => exact hstep .idle rfl hcoherent hframe (atStage_closed htx)
      | commitFault | commitAborted | commit | rollbackFault | rollback =>
        exact hstep .idle rfl hcoherent hframe (atStage_closed (Store.close_tx_self _ _))
      | fault q hf =>
        obtain ⟨g', hg', hstage⟩ := atStage_failed hown (.inr rfl)
        exact hstep g' (by cases q <;> exact hg') hcoherent hframe hstage
      | aborted q hab =>
        obtain ⟨g', hg', hstage⟩ := atStage_failed hown (.inl rfl)
        exact hstep g' (by cases q <;> exact hg') hcoherent hframe hstage
      | refused q p e hab hp hl hr =>
        obtain ⟨g', hg', hstage⟩ := atStage_failed hown (.inr rfl)
        exact hstep g' (by cases q <;> exact hg') hcoherent hframe hstage
      | done q ls a ws hab hq hl =>
        obtain ⟨g', hg', hstage⟩ := atStage_done hinv.coherent hown ha hq
        exact hstep g' hg' hcoherent hframe hstage

end Sound

end Ecomm
