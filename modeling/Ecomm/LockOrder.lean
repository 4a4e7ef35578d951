import Ecomm.Lib.Growing
import Ecomm.Lib.WaitFor
import Ecomm.Awaited
import Ecomm.Stock

/-! The order in which concurrent `create` calls lock product rows, and when
none of them waits in a circle. -/

namespace Ecomm

open Concurrent Sql

/-- Thread `i` is about to run a statement that needs the row of product `p`. -/
def WantsProduct (c : Config app CreateResult) (i : Nat) (p : Uuid) : Prop :=
  ∃ q k ch plan, c.thread i = some (.op (.sql (.stmt q)) k) ∧
    q.plan (c.shared.store.view i) ch = some plan ∧
    (.row .products p : Resource schema) ∈ plan.locks

def productHolder (s : AppState) (p : Uuid) : Option Nat := s.store.owner (.row .products p)

/-- Transactions wait in a circle for product rows. -/
def Deadlocked (c : Config app CreateResult) : Prop :=
  CircularWait (WantsProduct c) (productHolder c.shared)

/-- Each product comes, when it is first named, after all that were named before. -/
def InOrder (rank : Uuid → Nat) : List Uuid → List CreateOrderItem → Prop
  | _, [] => True
  | named, item :: items =>
    match uuidIn item.productId with
    | none => True
    | some p => (p ∈ named ∨ ∀ q ∈ named, rank q < rank p) ∧ InOrder rank (p :: named) items

/-! What a thread has locked: the products of its transaction. -/

abbrev Named := Option (List Uuid)

def lockAllowed (rank : Uuid → Nat) (g : Named) : AppOp → Prop
  | .sql .startTransaction => g = none
  | .sql (.stmt (.selectForUpdate t p)) => t = .products ∧
      ∃ named, g = some named ∧ (p ∈ named ∨ ∀ q ∈ named, rank q < rank p)
  | .sql (.stmt (.update t p _)) => t = .products → ∃ named, g = some named ∧ p ∈ named
  | .sql (.stmt (.insert t id _)) => t = .products →
      ∃ named p, g = some named ∧ id = some p ∧ p ∈ named
  | .sql (.stmt (.delete _ _)) => False
  | _ => True

def lockNext (g : Named) : (o : AppOp) → Except Thrown o.Ans → Named → Prop
  | .sql .startTransaction, .ok _, g' => g' = some []
  | .sql .startTransaction, .error _, g' => g' = g
  | .sql .commitTransaction, _, g' => g' = none
  | .sql .rollbackTransaction, _, g' => g' = none
  | .sql (.stmt (.selectForUpdate _ p)), .ok row, g' =>
    g' = if (show Option _ from row).isSome then g.map (p :: ·) else g
  | .sql (.stmt _), .ok _, g' => g' = g
  | .sql (.stmt _), .error _, g' => g' = g ∨ g' = g.map (fun _ => [])
  | _, _, g' => g' = g

def lockRules (rank : Uuid → Nat) : Protocol AppOp AppOp.Ans Thrown Named where
  allowed := lockAllowed rank
  next := lockNext

def Holds (s : AppState) (i : Nat) : Named → Prop
  | none => s.store.tx i = none
  | some named => s.store.tx i ≠ none ∧ ∀ p, productHolder s p = some i ↔ p ∈ named

structure LocksNamed (s : AppState) (γ : Nat → Named) : Prop where
  coherent : s.store.Coherent
  holds : ∀ i, Holds s i (γ i)

section Sound

variable {rank : Uuid → Nat} {s s' : AppState} {γ : Nat → Named} {i : Nat}

theorem Holds.frame {j : Nat} {g : Named} (h : Holds s j g)
    (htx : s'.store.tx j = s.store.tx j)
    (hown : ∀ p, productHolder s' p = some j ↔ productHolder s p = some j) : Holds s' j g := by
  cases g with
  | none => exact htx.trans h
  | some named => exact ⟨by rw [htx]; exact h.1, fun p => (hown p).trans (h.2 p)⟩

/-- What a step leaves to the other threads. -/
structure OthersKeep (s s' : AppState) (i : Nat) : Prop where
  tx : ∀ j, j ≠ i → s'.store.tx j = s.store.tx j
  owner : ∀ j, j ≠ i → ∀ p, productHolder s' p = some j ↔ productHolder s p = some j

theorem LocksNamed.step (h : LocksNamed s γ) (hs' : s'.store.Coherent) (hothers : OthersKeep s s' i)
    {g : Named} (hown : Holds s' i g) : LocksNamed s' (Function.update γ i g) := by
  refine ⟨hs', fun j => ?_⟩
  by_cases hj : j = i
  · subst hj
    rw [Function.update_self]
    exact hown
  · rw [Function.update_of_ne hj]
    exact (h.holds j).frame (hothers.tx j hj) (hothers.owner j hj)

theorem othersKeep_refl (hstore : s'.store = s.store) (i : Nat) : OthersKeep s s' i :=
  ⟨fun j _ => by rw [hstore], fun j _ p => by rw [productHolder, productHolder, hstore]⟩

theorem exec_othersKeep {store : Store schema} {c : Choice schema} {o : Op schema}
    {a : Except SqlError o.Ans} (h : s.store.exec i c o = some (a, store)) :
    OthersKeep s { s with store } i := by
  constructor
  · exact fun j hj => Store.exec_tx_other h hj
  · intro j hj p
    cases Store.exec_step h with
    | startFault | start | commitNone | aborted => rfl
    | commitFault | commitAborted | rollbackFault | rollback => exact Store.released_other _ hj _
    | commit => exact Store.released_other _ hj _
    | fault | refused => exact Store.abort_owner_other _ hj _
    | done q ls a ws ha hq hl => exact Store.perform_owner_other hj hl _ _

theorem holds_closed {store : Store schema} (htx : store.tx i = none) :
    Holds { s with store } i none := htx

theorem holds_failed {store : Store schema} {g : Named} (h : Holds s i g)
    (hstore : store = s.store ∨ store = s.store.abort i) :
    ∃ g', (g' = g ∨ g' = g.map (fun _ => [])) ∧ Holds { s with store } i g' := by
  rcases hstore with rfl | rfl
  · exact ⟨g, .inl rfl, h⟩
  · cases g with
    | none =>
      have hnone : s.store.tx i = none := h
      exact ⟨none, .inl rfl, by rw [Store.abort_none hnone]; exact h⟩
    | some named =>
      obtain ⟨x, hx⟩ := Option.ne_none_iff_exists'.mp h.1
      refine ⟨some [], .inr rfl, ?_, fun p => ?_⟩
      · rw [Store.abort_tx_self hx]
        simp
      · have howner : (s.store.abort i).owner = s.store.released i := by simp [Store.abort, hx]
        simp [productHolder, howner, Store.released_self]

theorem holds_performed {named : List Uuid} (more : List Uuid) {ls : List (Resource schema)}
    {ws : List (Write schema)} (h : Holds s i (some named))
    (hmore : ∀ p, (.row .products p : Resource schema) ∈ ls → p ∈ named ∨ p ∈ more)
    (htaken : ∀ p ∈ more, (.row .products p : Resource schema) ∈ ls) :
    Holds { s with store := s.store.perform i ls ws } i (some (more ++ named)) := by
  obtain ⟨x, hx⟩ := Option.ne_none_iff_exists'.mp h.1
  refine ⟨by rw [Store.perform_tx_some hx]; simp, fun p => ?_⟩
  have howner : productHolder { s with store := s.store.perform i ls ws } p =
      if (.row .products p : Resource schema) ∈ ls then some i else productHolder s p := by
    simp [productHolder, Store.perform, hx]
  rw [howner, List.mem_append]
  split
  · next hmem =>
    have hp := hmore p hmem
    exact iff_of_true rfl hp.symm
  · next hmem =>
    have hnot : p ∉ more := fun hp => hmem (htaken p hp)
    simp [hnot, h.2 p]

theorem row_mem_locks {T : Database} {w : Write schema} {p : Uuid}
    (h : (.row .products p : Resource schema) ∈ w.locks T) : w.table = .products ∧ w.id = p := by
  rw [Write.locks] at h
  rcases List.mem_cons.mp h with h | h
  · obtain ⟨ht, hp⟩ := Resource.row.inj h
    exact ⟨ht.symm, hp.symm⟩
  · rcases List.mem_append.mp h with h | h
    · obtain ⟨k, _, hk⟩ := List.mem_map.mp h
      cases hk
    · obtain ⟨k, _, hk⟩ := List.mem_map.mp h
      cases hk

theorem holds_wrote {g : Named} (h : Holds s i g) {T : Database} {w : Write schema}
    (hw : w.table = .products → ∃ named, g = some named ∧ w.id ∈ named) :
    Holds { s with store := s.store.perform i (w.locks T) [w] } i g := by
  cases g with
  | none => exact Store.perform_tx_none h _ _
  | some named =>
    have hmore : ∀ p, (.row .products p : Resource schema) ∈ w.locks T → p ∈ named ∨ p ∈ [] := by
      intro p hp
      obtain ⟨ht, rfl⟩ := row_mem_locks hp
      obtain ⟨named', hg, hmem⟩ := hw ht
      obtain rfl := Option.some.inj hg
      exact .inl hmem
    exact holds_performed [] h hmore nofun

theorem holds_done {g : Named} (h : Holds s i g) {T : Database} {c : Choice schema}
    {q : Stmt schema} {ls : List (Resource schema)} {a : q.Ans} {ws : List (Write schema)}
    (ha : lockAllowed rank g (.sql (.stmt q))) (hq : q.Success T c ls a ws) :
    ∃ g', lockNext g (.sql (.stmt q)) (.ok a) g' ∧
      Holds { s with store := s.store.perform i ls ws } i g' := by
  have hsame : Holds { s with store := s.store.perform i [] [] } i g := by
    rw [Store.perform_nil]
    exact h
  cases hq with
  | select t cond => exact ⟨g, rfl, hsame⟩
  | updateMissing t id set hnone => exact ⟨g, rfl, hsame⟩
  | lockMissing t id hnone => exact ⟨g, rfl, hsame⟩
  | lock t id row hrow =>
    obtain ⟨rfl, named, rfl, _⟩ := ha
    exact ⟨some (id :: named), rfl, holds_performed [id] h
      (fun p hp => .inr (by simpa using hp)) (by simp)⟩
  | insert t id row hnew hallow =>
    refine ⟨g, rfl, holds_wrote h (fun ht => ?_)⟩
    obtain ⟨named, p, hg, rfl, hmem⟩ := ha ht
    exact ⟨named, hg, hmem⟩
  | update t id set old hold hallow => exact ⟨g, rfl, holds_wrote h ha⟩
  | deleteMissing t id hnone => exact ha.elim
  | delete t id old ws hold hws => exact ha.elim

theorem lockRules_sound (rank : Uuid → Nat) : (lockRules rank).Sound app Always LocksNamed where
  exec {s γ i ch o r s'} hinv _ ha he := by
    have hown := hinv.holds i
    have he : AppState.exec s i ch o = some (r, s') := he
    cases o with
    | channelReady | randomUUID | dateNow | settle _ | publishStatusChanged _ | sendToQueue _ =>
      have hstore : s'.store = s.store := AppState.exec_store he (by simp)
      refine ⟨γ i, rfl, hinv.step (by rw [hstore]; exact hinv.coherent)
        (othersKeep_refl hstore i) ?_⟩
      exact hown.frame (by rw [hstore]) (fun p => by rw [productHolder, productHolder, hstore])
    | sql q =>
      obtain ⟨a, store, hexec, rfl, rfl⟩ := AppState.exec_sql he
      have hcoherent := hinv.coherent.exec hexec
      have hothers := exec_othersKeep hexec
      have hstep : ∀ g, lockNext (γ i) (.sql q) (a.mapError .sql) g →
          Holds { s with store } i g → ∃ g, (lockRules rank).next (γ i) (.sql q)
            (a.mapError .sql) g ∧ LocksNamed { s with store } (Function.update γ i g) :=
        fun g hnext hholds => ⟨g, hnext, hinv.step hcoherent hothers hholds⟩
      cases Store.exec_step hexec with
      | startFault => exact hstep (γ i) rfl hown
      | start =>
        have hnone : γ i = none := ha
        have htx : s.store.tx i = none := by
          rw [hnone] at hown
          exact hown
        refine hstep (some []) rfl ⟨by simp, fun p => ?_⟩
        simpa [productHolder] using hinv.coherent.owner_none htx _
      | commitNone htx => exact hstep none rfl (holds_closed htx)
      | commitFault | commitAborted | commit | rollbackFault | rollback =>
        exact hstep none rfl (holds_closed (Store.close_tx_self _ _))
      | fault q hf =>
        obtain ⟨g', hg', hholds⟩ := holds_failed hown (.inr rfl)
        exact hstep g' (by cases q <;> exact hg') hholds
      | aborted q hab =>
        obtain ⟨g', hg', hholds⟩ := holds_failed hown (.inl rfl)
        exact hstep g' (by cases q <;> exact hg') hholds
      | refused q p e hab hp hl hr =>
        obtain ⟨g', hg', hholds⟩ := holds_failed hown (.inr rfl)
        exact hstep g' (by cases q <;> exact hg') hholds
      | done q ls a ws hab hq hl =>
        obtain ⟨g', hg', hholds⟩ := holds_done hown ha hq
        exact hstep g' hg' hholds

end Sound

section Program

variable {rank : Uuid → Nat} {α : Type}

def Idle : AppOp → Prop
  | .sql (.stmt (.select _ _)) | .sql (.stmt (.malformed _)) => True
  | .sql _ => False
  | _ => True

theorem idle_step {o : AppOp} (ho : Idle o) (g : Named) :
    lockAllowed rank g o ∧ ∀ r g', lockNext g o r g' → g' = g ∨ g' = g.map (fun _ => []) := by
  cases o with
  | sql q =>
    cases q with
    | startTransaction | commitTransaction | rollbackTransaction => exact ho.elim
    | stmt q =>
      cases q with
      | selectForUpdate | insert | update | delete => exact ho.elim
      | select | malformed =>
        refine ⟨trivial, ?_⟩
        intro r g' hn
        cases r with
        | ok a => exact .inl hn
        | error e => exact hn
  | channelReady | sendToQueue _ | settle _ | publishStatusChanged _ | randomUUID | dateNow =>
    exact ⟨trivial, fun _ _ hn => .inl hn⟩

theorem wp_idle {p : App α} (hp : p.Awaits Idle) :
    p.wp (lockRules rank) (fun _ g => g = none) (fun _ g => g = none) none := by
  refine hp.wp ?_ rfl
  intro g o hg ho
  subst hg
  obtain ⟨hallowed, hnext⟩ := idle_step ho none
  refine ⟨hallowed, ?_⟩
  intro r g' hn
  exact (hnext r g' hn).elim id id

theorem wp_idle_any {p : App α} (hp : p.Awaits Idle) (g : Named) :
    p.wp (lockRules rank) (fun _ _ => True) (fun _ _ => True) g :=
  hp.wp (I := fun _ => True) (fun g _ _ ho => ⟨(idle_step ho g).1, fun _ _ _ => trivial⟩) trivial

theorem idle_findByKey (key : Option String) : (findByKey key).Awaits Idle :=
  awaits_findByKey (fun _ _ => trivial) key

theorem wp_stmt_named {q : Stmt schema} {g : Named} {Q : q.Ans → Named → Prop}
    (ha : lockAllowed rank g (.sql (.stmt q)))
    (hnext : ∀ a g', lockNext g (.sql (.stmt q)) (.ok a) g' → Q a g') :
    (sql (.stmt q)).wp (lockRules rank) Q (fun _ _ => True) g :=
  (Prog.wp_await _ _ _ _).mpr ⟨ha, hnext, fun _ _ _ => trivial⟩

theorem wp_managerSave_locks {named : List Uuid} {p : Uuid} (hp : p ∈ named) (entity : Product) :
    (managerSave .products p entity).wp (lockRules rank) (fun _ g => g = some named)
      (fun _ _ => True) (some named) := by
  refine (Prog.wp_bind _ _ _ _ _).mpr ((Prog.wp_bind _ _ _ _ _).mpr ?_)
  refine wp_stmt_named trivial ?_
  intro rows g hg
  obtain rfl : g = some named := hg
  simp only [Prog.pure_eq, Prog.wp_ret]
  split
  · exact rfl
  · cases rows.head? with
    | none =>
      refine (Prog.wp_bind _ _ _ _ _).mpr (wp_stmt_named (fun _ => ⟨named, p, rfl, rfl, hp⟩) ?_)
      exact fun _ _ hn => hn
    | some row =>
      refine (Prog.wp_bind _ _ _ _ _).mpr (wp_stmt_named (fun _ => ⟨named, rfl, hp⟩) ?_)
      exact fun _ _ hn => hn

theorem wp_createItem_locks {named : List Uuid} {orderId : Uuid} {item : CreateOrderItem}
    (horder : ∀ p, uuidIn item.productId = some p → p ∈ named ∨ ∀ q ∈ named, rank q < rank p) :
    (createItem orderId item).wp (lockRules rank)
      (fun _ g => ∃ p, uuidIn item.productId = some p ∧ g = some (p :: named))
      (fun _ _ => True) (some named) := by
  refine (Prog.wp_bind _ _ _ _ _).mpr ?_
  unfold findOneForUpdate
  cases hp : uuidIn item.productId with
  | none =>
    refine (Prog.wp_bind _ _ _ _ _).mpr (wp_stmt_named trivial ?_)
    exact fun a => nomatch (show Empty from a)
  | some p =>
    refine (Prog.wp_bind _ _ _ _ _).mpr (wp_stmt_named ⟨rfl, named, rfl, horder p hp⟩ ?_)
    intro row g hg
    cases row with
    | none => trivial
    | some product =>
      obtain rfl : g = some (p :: named) := hg
      simp only [Option.map_some, Prog.pure_eq, Prog.wp_ret]
      split
      · trivial
      · split
        · trivial
        · refine (Prog.wp_bind _ _ _ _ _).mpr ?_
          refine Prog.wp_mono (wp_managerSave_locks List.mem_cons_self _) ?_ (fun _ _ _ => trivial)
          rintro _ _ rfl
          refine wp_stmt_named (fun h => by cases h) ?_
          exact fun _ _ hn => ⟨p, rfl, hn⟩

theorem wp_createItems_locks {orderId : Uuid} (items : List CreateOrderItem) :
    ∀ named, InOrder rank named items → (createItems orderId items).wp (lockRules rank)
      (fun _ g => ∃ named, g = some named) (fun _ _ => True) (some named) := by
  induction items with
  | nil => exact fun named _ => ⟨named, rfl⟩
  | cons item items ih =>
    intro named horder
    refine (Prog.wp_bind _ _ _ _ _).mpr ?_
    have hitem : ∀ p, uuidIn item.productId = some p →
        (p ∈ named ∨ ∀ q ∈ named, rank q < rank p) ∧ InOrder rank (p :: named) items := by
      intro p hp
      simpa only [InOrder, hp] using horder
    refine Prog.wp_mono (wp_createItem_locks (fun p hp => (hitem p hp).1)) ?_ (fun _ _ _ => trivial)
    rintro savedItem _ ⟨p, hp, rfl⟩
    refine (Prog.wp_bind _ _ _ _ _).mpr ?_
    refine Prog.wp_mono (ih (p :: named) (hitem p hp).2) ?_ (fun _ _ _ => trivial)
    exact fun _ _ h => h

theorem wp_createInTransaction_locks {dto : CreateOrderDto} (horder : InOrder rank [] dto.items)
    (userId : Uuid) (key : Option String) :
    (createInTransaction dto userId key).wp (lockRules rank) (fun _ g => g = none)
      (fun _ _ => True) (some []) := by
  refine (Prog.wp_bind _ _ _ _ _).mpr (wp_stmt_named (fun h => by cases h) ?_)
  intro savedOrder g hg
  obtain rfl : g = some [] := hg
  refine (Prog.wp_bind _ _ _ _ _).mpr ?_
  refine Prog.wp_mono (wp_createItems_locks dto.items [] horder) ?_ (fun _ _ _ => trivial)
  rintro _ g ⟨named, rfl⟩
  refine (Prog.wp_bind _ _ _ _ _).mpr ?_
  refine Prog.wp_mono (wp_idle_any (awaits_findOrderWithItems (fun _ _ => trivial) _) _) ?_
    (fun _ _ _ => trivial)
  intro found g _
  cases found with
  | none => trivial
  | some createdOrder =>
    refine (Prog.wp_bind _ _ _ _ _).mpr ((Prog.wp_await _ _ _ _).mpr ⟨trivial, ?_, ?_⟩)
    · exact fun _ _ hn => hn
    · exact fun _ _ _ => trivial

theorem wp_createFailed_locks (key : Option String) (error : Thrown) (g : Named) :
    (createFailed key error).wp (lockRules rank) (fun _ g => g = none) (fun _ _ => True) g := by
  refine (Prog.wp_bind _ _ _ _ _).mpr ((Prog.wp_await _ _ _ _).mpr ⟨trivial, ?_, ?_⟩)
  · intro _ g' hn
    obtain rfl : g' = none := hn
    split
    · refine (Prog.wp_bind _ _ _ _ _).mpr ?_
      refine Prog.wp_mono (wp_idle (idle_findByKey key)) ?_ (fun _ _ _ => trivial)
      intro found g hg
      cases found with
      | none => trivial
      | some existing => exact hg
    · trivial
  · exact fun _ _ _ => trivial

theorem wp_create_locks {dto : CreateOrderDto} (horder : InOrder rank [] dto.items)
    (idempotencyKey : Option String) :
    (create dto idempotencyKey).wp (lockRules rank) (fun _ _ => True) (fun _ _ => True) none := by
  refine (Prog.wp_bind _ _ _ _ _).mpr ?_
  refine Prog.wp_mono (wp_idle (idle_findByKey _)) ?_ (fun _ _ _ => trivial)
  rintro found _ rfl
  cases found with
  | some existingOrder => trivial
  | none =>
    dsimp only
    split
    · trivial
    · refine (Prog.wp_bind _ _ _ _ _).mpr ?_
      refine Prog.wp_mono (wp_idle (awaits_findOneById (fun _ => trivial) (fun _ => trivial) _)) ?_
        (fun _ _ _ => trivial)
      rintro user _ rfl
      cases user with
      | none => trivial
      | some user =>
        refine (Prog.wp_bind _ _ _ _ _).mpr ((Prog.wp_await _ _ _ _).mpr ⟨rfl, ?_, ?_⟩)
        · intro _ g hn
          obtain rfl : g = some [] := hn
          refine (Prog.wp_bind _ _ _ _ _).mpr ((Prog.wp_tryCatch _ _ _ _ _).mpr ?_)
          refine (Prog.wp_bind _ _ _ _ _).mpr ?_
          refine Prog.wp_mono (wp_createInTransaction_locks horder _ _) ?_ ?_
          · rintro createdOrder _ rfl
            refine (Prog.wp_bind _ _ _ _ _).mpr ?_
            refine Prog.wp_mono (wp_idle_any (awaits_publishOrderCreated trivial trivial
              (fun _ => trivial) createdOrder) _) ?_ (fun _ _ _ => trivial)
            exact fun _ _ _ => trivial
          · intro error g _
            refine (Prog.wp_bind _ _ _ _ _).mpr ?_
            exact Prog.wp_mono (wp_createFailed_locks _ error g) (fun _ _ _ => trivial)
              (fun _ _ _ => trivial)
        · exact fun _ _ _ => trivial

end Program

theorem wants_later {rank : Uuid → Nat} {c : Config app CreateResult} {γ : Nat → Named}
    {Q : Nat → CreateResult → Named → Prop} {E : Nat → Thrown → Named → Prop}
    (hc : Follows (lockRules rank) LocksNamed Q E c γ) {i : Nat} {p q : Uuid}
    (hwants : WantsProduct c i p) (hfree : productHolder c.shared p ≠ some i)
    (hheld : productHolder c.shared q = some i) : rank q < rank p := by
  obtain ⟨stmt, k, ch, plan, hthread, hplan, hlock⟩ := hwants
  have hallowed : lockAllowed rank (γ i) (.sql (.stmt stmt)) := (hc.thread i _ hthread).1
  have hholds := hc.inv.holds i
  have hnot : ∀ named, γ i = some named → p ∉ named := by
    intro named hg hmem
    rw [hg] at hholds
    exact hfree ((hholds.2 p).mpr hmem)
  have hwrite : ∀ w : Write schema,
      (.row .products p : Resource schema) ∈ w.locks (c.shared.store.view i) →
      (w.table = .products → ∃ named, γ i = some named ∧ w.id ∈ named) → False := by
    intro w hw hnamed
    obtain ⟨ht, rfl⟩ := row_mem_locks hw
    obtain ⟨named, hg, hmem⟩ := hnamed ht
    exact hnot named hg hmem
  cases stmt with
  | select t cond =>
    obtain rfl := Option.some.inj hplan
    cases hlock
  | malformed e =>
    obtain rfl := Option.some.inj hplan
    cases hlock
  | delete t id => exact hallowed.elim
  | selectForUpdate t id =>
    obtain ⟨rfl, named, hg, horder⟩ := hallowed
    have hid : id = p := by
      simp only [Stmt.plan] at hplan
      split at hplan
      · obtain rfl := Option.some.inj hplan
        cases hlock
      · obtain rfl := Option.some.inj hplan
        exact (Resource.row.inj (List.mem_singleton.mp hlock)).2.symm
    subst hid
    rw [hg] at hholds
    exact (horder.resolve_left (hnot named hg)) q ((hholds.2 q).mp hheld)
  | insert t id row =>
    refine (hwrite ⟨t, id.getD ch.id, some (row ch.now)⟩ ?_ ?_).elim
    · simp only [Stmt.plan] at hplan
      split at hplan
      · split at hplan
        · cases hplan
        · obtain rfl := Option.some.inj hplan
          exact hlock
      · obtain rfl := Option.some.inj hplan
        exact hlock
    · intro ht
      obtain ⟨named, p', hg, rfl, hmem⟩ := hallowed ht
      exact ⟨named, hg, hmem⟩
  | update t id set =>
    simp only [Stmt.plan] at hplan
    split at hplan
    · obtain rfl := Option.some.inj hplan
      cases hlock
    · obtain rfl := Option.some.inj hplan
      exact (hwrite _ hlock hallowed).elim

theorem creation_locks {s : AppState} (hs : s.Quiet) (rank : Uuid → Nat) {calls : List CreateCall}
    (hcalls : ∀ call ∈ calls, InOrder rank [] call.dto.items) :
    Follows (lockRules rank) LocksNamed (fun _ _ _ => True) (fun _ _ _ => True)
      (creation s calls) (fun _ => none) where
  inv := ⟨hs.coherent, hs.tx⟩
  thread i p hp := by
    obtain ⟨call, hcall, rfl⟩ := Option.map_eq_some_iff.mp hp
    exact wp_create_locks (hcalls call (List.mem_of_getElem? hcall)) _

/-- If one order of the products suits all requests, no interleaving of the
calls reaches a state in which they wait in a circle for product rows. -/
theorem create_never_deadlocks {s : AppState} (hs : s.Quiet) (rank : Uuid → Nat)
    {calls : List CreateCall} (hcalls : ∀ call ∈ calls, InOrder rank [] call.dto.items)
    {es : List (Nat × AppChoice)} {c : Config app CreateResult}
    (h : (creation s calls).run es = some c) : ¬ Deadlocked c := by
  obtain ⟨γ, hγ, _⟩ := (lockRules_sound rank).run (creation_locks hs rank hcalls)
    (Config.meets_always _ _) h
  exact no_circularWait (fun i p q => wants_later hγ)

def ink : Product where
  name := "Ink"
  sku := "INK"
  description := none
  price := 7
  stock := 5
  isActive := true
  createdAt := 0
  updatedAt := 0

def stationer : Database
  | .products => ((penShop 5) .products).insert 3 ink
  | t => penShop 5 t

theorem stationer_distinct : Distinct stationer := by
  apply Distinct.of_entries
  intro t e he e' he' hkey
  cases t with
  | products =>
    have hproduct : ∀ e ∈ (stationer .products).entries,
        (e.1 = 3 ∧ e.2.sku = "INK") ∨ (e.1 = 2 ∧ e.2.sku = "PEN") := by decide +kernel
    obtain ⟨k, hk, hk'⟩ := hkey
    obtain rfl := List.mem_singleton.mp hk
    have hsku : e.2.sku = e'.2.sku := by simpa [schema, uniqueKeys] using hk'
    rcases hproduct e he with ⟨hid, hs⟩ | ⟨hid, hs⟩ <;>
      rcases hproduct e' he' with ⟨hid', hs'⟩ | ⟨hid', hs'⟩ <;> simp_all
  | users | orders | orderItems | processedMessages => simp_all [stationer, penShop, AList.singleton]

def oneEach (products : List Uuid) : CreateCall where
  dto := { userId := uuidOut 1, idempotencyKey := none
           items := products.map (fun p =>
             { productId := uuidOut p, quantity := 1, priceSnapshot := 3 }) }
  idempotencyKey := none

/-- Both calls lock the product of their first line, and then go on. -/
def crossing : List (Nat × AppChoice) :=
  List.replicate 3 (0, tick 10) ++ List.replicate 3 (1, tick 20) ++
    List.replicate 4 (0, tick 11) ++ List.replicate 4 (1, tick 21)

theorem create_never_deadlocks_alike :
    ∃ c, (creation (serving stationer) [oneEach [2, 3], oneEach [3]]).run crossing = some c ∧
      ¬ Deadlocked c := by
  have hrun : ((creation (serving stationer) [oneEach [2, 3], oneEach [3]]).run
      crossing).isSome = true := by decide +kernel
  obtain ⟨c, hc⟩ := Option.isSome_iff_exists.mp hrun
  refine ⟨c, hc, create_never_deadlocks (serving_quiet stationer_distinct) BitVec.toNat ?_ hc⟩
  simp [oneEach, InOrder, uuidIn_uuidOut]

def nextLock (c : Config app CreateResult) (i : Nat) : Option Uuid :=
  match c.thread i with
  | some (.op (.sql (.stmt (.selectForUpdate .products p))) _) => some p
  | _ => none

theorem waits_of_nextLock {c : Config app CreateResult} {i j : Nat} {p : Uuid}
    (hnext : nextLock c i = some p)
    (hthere : ((c.shared.store.view i .products).lookup p).isSome)
    (hheld : productHolder c.shared p = some j) (hji : j ≠ i) :
    WaitsFor (WantsProduct c) (productHolder c.shared) i j := by
  obtain ⟨row, hrow⟩ := Option.isSome_iff_exists.mp hthere
  refine ⟨p, ?_, hheld, hji⟩
  unfold nextLock at hnext
  split at hnext
  · next q k hthread =>
    obtain rfl := Option.some.inj hnext
    refine ⟨_, k, ⟨false, 0, 0⟩, ⟨[.row .products q], .ok (some row, [])⟩, hthread, ?_, by simp⟩
    simp [Stmt.plan, hrow]
  · cases hnext

theorem create_deadlocks_crossed :
    ¬ ∀ (s : AppState), s.Quiet → ∀ (calls : List CreateCall) es c,
      (creation s calls).run es = some c → ¬ Deadlocked c := by
  intro h
  have hrun : ((creation (serving stationer) [oneEach [2, 3], oneEach [3, 2]]).run crossing).map
      (fun c => ((nextLock c 0, nextLock c 1),
        (((c.shared.store.view 0 .products).lookup 3).isSome,
          ((c.shared.store.view 1 .products).lookup 2).isSome),
        (productHolder c.shared 2, productHolder c.shared 3))) =
      some ((some 3, some 2), (true, true), (some 0, some 1)) := by decide +kernel
  obtain ⟨c, hc, hstate⟩ := Option.map_eq_some_iff.mp hrun
  simp only [Prod.mk.injEq] at hstate
  obtain ⟨⟨hnext0, hnext1⟩, ⟨hink, hpen⟩, hpenHeld, hinkHeld⟩ := hstate
  refine h _ (serving_quiet stationer_distinct) _ _ c hc ?_
  exact circularWait_two (waits_of_nextLock hnext0 hink hinkHeld (by decide))
    (waits_of_nextLock hnext1 hpen hpenHeld (by decide))

end Ecomm
