import Ecomm.CreateOrders

/-! What `create` does, as a program: it commits a balanced account once, then
announces the order that it committed, and answers with a committed order. -/

namespace Ecomm

open Concurrent Sql

/-- What a thread that runs `create` remembers: the committed orders it read,
the order it committed, and that it has announced it. -/
structure Sale where
  call : CreateCall
  observed : List (Uuid × Order)
  done : Option Uuid
  announced : Bool

namespace Sale

def begin (call : CreateCall) : Sale := ⟨call, [], none, false⟩

end Sale

def orderWritten (ws : List (Write schema)) : Option Uuid :=
  (ws.find? (fun w => w.table = .orders)).map (·.id)

def createAllowed (x : Sale) (g : Session schema) : AppOp → Prop
  | .sql .startTransaction => True
  | .sql .commitTransaction => x.done = none ∧
    ∃ o, Account x.call.key o (demand x.call.dto.items) (demand x.call.dto.items) g
  | .sql .rollbackTransaction => True
  | .sql (.stmt q) => q.reads = true ∨ g.tx ≠ none
  | .sendToQueue m => x.announced = false ∧
    ∃ o, x.done = some o ∧ m.payload.get "orderId" = some (.str (uuidOut o))
  | .channelReady | .randomUUID | .dateNow => True
  | .settle _ | .publishStatusChanged _ => False

/-- Orders read outside a transaction are committed ones. -/
def createNext (x : Sale) (g : Session schema) : (o : AppOp) → Except Thrown o.Ans → Sale
  | .sql .commitTransaction, .ok _ => { x with done := orderWritten g.writes }
  | .sql (.stmt (.select .orders _)), .ok rows =>
    if g.tx.isNone then { x with observed := x.observed ++ (show List (Uuid × Order) from rows) }
    else x
  | .sendToQueue _, _ => { x with announced := true }
  | _, _ => x

def createRules : Rules Sale := ⟨createAllowed, fun x g o r _ x' => x' = createNext x g o r⟩

theorem orderWritten_account {key : Option String} {o : Uuid} {taken items : Uuid → Int}
    {g : Session schema} (h : Account key o taken items g) : orderWritten g.writes = some o := by
  obtain ⟨w, hw, ht⟩ := h.written
  cases hf : g.writes.find? (fun w => w.table = .orders) with
  | none => exact absurd ht (by simpa using List.find?_eq_none.mp hf w hw)
  | some v =>
    have hv : v.table = .orders := by simpa using List.find?_some hf
    rw [orderWritten, hf, Option.map_some, h.orders v (List.mem_of_find?_eq_some hf) hv]

theorem createNext_stmt {x : Sale} {g : Session schema} {q : Stmt schema}
    (hq : g.tx ≠ none ∨ ∀ cond, q ≠ .select .orders cond)
    (r : Except Thrown (AppOp.sql (.stmt q)).Ans) : createNext x g (.sql (.stmt q)) r = x := by
  cases q with
  | select t cond =>
    cases r with
    | error e => cases t <;> rfl
    | ok rows =>
      cases t with
      | orders =>
        rcases hq with hq | hq
        · obtain ⟨y, hy⟩ := Option.ne_none_iff_exists'.mp hq
          simp [createNext, hy]
        · exact absurd rfl (hq cond)
      | _ => rfl
  | _ => cases r <;> rfl

theorem wp_createItem {X : Type} {R : Rules X} {x : X} {g : Session schema} {o : Uuid}
    {key : Option String} {taken : Uuid → Int}
    (hR : ∀ g q, g.tx ≠ none → R.Silent x g (.sql (.stmt q)))
    (item : CreateOrderItem) (hg : Account key o taken taken g) :
    (createItem o item).wp R.protocol
      (fun _ g' => g'.2 = x ∧ Account key o (fun p => taken p + item.amount p)
        (fun p => taken p + item.amount p) g'.1)
      (fun _ g' => g'.2 = x) (g, x) := by
  have hopen : g.tx ≠ none := by simp [hg.isOpen]
  refine (Prog.wp_bind _ _ _ _ _).mpr ?_
  refine Rules.wp_findOneForUpdate (fun _ => hR g _ hopen) (fun _ => hR g _ hopen) rfl ?_
    (fun _ => rfl)
  intro u r hu hr
  have hlock := hg.lock hr
  by_cases hq : item.quantity ≤ 0
  · simp [hq]
  · by_cases hs : r.stock < item.quantity
    · simp [hq, hs]
    · simp only [hq, hs, if_false]
      have hopen' : (g.lock .products u r).tx ≠ none := by
        rw [hlock.isOpen]
        simp
      have hseen : (g.lock .products u r).seen .products u = some (some r) :=
        Session.lock_seen_self hg.isOpen
      refine (Prog.wp_bind _ _ _ _ _).mpr ?_
      refine Rules.wp_managerSave_seen hseen (fun _ => hR _ _ hopen')
        (fun _ => hR _ _ hopen') ?_ ?_ (fun _ => rfl)
      · intro he
        have := congrArg Product.stock he
        simp only at this
        omega
      · intro now _
        have htake := hlock.take (saveColumns .products
          { r with stock := r.stock - item.quantity } r now r) (q := item.quantity) hseen
          (by simp [saveColumns, column]; omega) (by omega)
        refine Rules.wp_insert (hR _ _ (by rw [htake.isOpen]; simp)) ?_ (fun _ => rfl)
        intro j now' _ hj
        refine ⟨rfl, ?_⟩
        have hadd := htake.addItem (orderItem o u item now') hj
        have hamount : ∀ p, item.amount p = if p = u then item.quantity else 0 := by
          intro p
          simp [CreateOrderItem.amount, hu, eq_comm]
        have hitem : ∀ p, itemQuantity p (orderItem o u item now') = item.amount p := by
          intro p
          rw [hamount]
          by_cases hp : u = p
          · simp [itemQuantity, orderItem, hp]
          · simp [itemQuantity, orderItem, hp, Ne.symm hp]
        simp only [hitem] at hadd
        simpa only [hamount] using hadd

theorem demand_cons (item : CreateOrderItem) (items : List CreateOrderItem) (p : Uuid) :
    demand (item :: items) p = item.amount p + demand items p := by
  simp [demand]

theorem wp_createItems {X : Type} {R : Rules X} {x : X} {g : Session schema} {o : Uuid}
    {key : Option String} {taken : Uuid → Int}
    (hR : ∀ g q, g.tx ≠ none → R.Silent x g (.sql (.stmt q)))
    (items : List CreateOrderItem) (hg : Account key o taken taken g) :
    (createItems o items).wp R.protocol
      (fun _ g' => g'.2 = x ∧ Account key o (fun p => taken p + demand items p)
        (fun p => taken p + demand items p) g'.1)
      (fun _ g' => g'.2 = x) (g, x) := by
  induction items generalizing g taken with
  | nil => exact ⟨rfl, by simpa [demand] using hg⟩
  | cons item items ih =>
    refine (Prog.wp_bind _ _ _ _ _).mpr ?_
    refine Prog.wp_mono (wp_createItem hR item hg) ?_ (fun _ _ h => h)
    rintro _ ⟨g', x'⟩ ⟨rfl, hg'⟩
    refine (Prog.wp_bind _ _ _ _ _).mpr ?_
    refine Prog.wp_mono (ih hg') ?_ (fun _ _ h => h)
    rintro _ ⟨g'', x''⟩ ⟨rfl, hg''⟩
    simpa only [demand_cons, add_assoc, Prog.pure_eq, Prog.wp_ret, true_and] using hg''

theorem wp_findOrderWithItems_open {X : Type} {R : Rules X} {x : X} {g : Session schema}
    {cond : Uuid → Order → Bool} (hR : ∀ q, R.Silent x g (.sql (.stmt q))) :
    (findOrderWithItems cond).wp R.protocol
      (fun a g' => g' = (g, x) ∧ ∀ e, a = some e → cond e.id e.row = true ∧
        ∀ b, g.seen .orders e.id = some b → b = some e.row)
      (fun _ g' => g'.2 = x) (g, x) := by
  refine (Prog.wp_bind _ _ _ _ _).mpr ?_
  refine Rules.wp_findOne (hR _) ?_ (fun _ => rfl)
  intro rows h
  cases hrow : rows.head? with
  | none => exact ⟨rfl, by simp⟩
  | some row =>
    have hmem : row ∈ rows := List.mem_of_head? hrow
    refine (Prog.wp_bind _ _ _ _ _).mpr (Rules.wp_find (hR _) ?_ (fun _ => rfl))
    intro items _
    refine ⟨rfl, ?_⟩
    rintro e he
    obtain rfl := Option.some.inj he
    exact ⟨h.meets row hmem, h.seen row hmem⟩

section

variable {x : Sale} {g : Session schema}

theorem silent_open (hg : g.tx ≠ none) (q : Stmt schema) :
    createRules.Silent x g (.sql (.stmt q)) :=
  ⟨.inr hg, fun r _ _ h => h.trans (createNext_stmt (.inl hg) r)⟩

theorem silent_select {t : Table} (ht : t ≠ .orders) (cond : Uuid → t.Row → Bool) :
    createRules.Silent x g (.sql (.stmt (.select t cond))) :=
  ⟨.inl rfl, fun r _ _ h => h.trans (createNext_stmt (.inr (fun c he => ht (by cases he; rfl))) r)⟩

theorem silent_malformed (e : SqlError) : createRules.Silent x g (.sql (.stmt (.malformed e))) :=
  ⟨.inl rfl, fun r _ _ h => by cases r <;> exact h⟩

theorem wp_commit {o : Uuid} (hdone : x.done = none)
    (hg : Account x.call.key o (demand x.call.dto.items) (demand x.call.dto.items) g) :
    commitTransaction.wp createRules.protocol
      (fun _ g' => g' = (.closed, { x with done := some o })) (fun _ g' => g'.2 = x) (g, x) := by
  refine Rules.wp_sql trivial ⟨hdone, o, hg⟩ ?_ ?_
  · intro a g' x' hn hx
    obtain rfl : x' = { x with done := orderWritten g.writes } := hx
    cases hn with
    | commit => rw [orderWritten_account hg]
  · intro e g' x' hn hx
    exact hx

theorem wp_createInTransaction {userId : Uuid} (hx : x.done = none)
    (hg : g = .opened) :
    (createInTransaction x.call.dto userId x.call.key).wp createRules.protocol
      (fun a g' => g' = (.closed, { x with done := some a.id })) (fun _ g' => g'.2 = x) (g, x) := by
  subst hg
  refine (Prog.wp_bind _ _ _ _ _).mpr ?_
  refine Rules.wp_insert (silent_open (by simp [Session.opened]) _) ?_ (fun _ => rfl)
  intro o now _ _
  have hopened := Account.opened o { userId, status := .pending, idempotencyKey := x.call.key
                                     createdAt := now, updatedAt := now, processedAt := none }
  refine (Prog.wp_bind _ _ _ _ _).mpr ?_
  refine Prog.wp_mono (wp_createItems (fun _ q hq => silent_open hq q) _ hopened) ?_ (fun _ _ h => h)
  rintro _ ⟨g', x'⟩ ⟨rfl, hg'⟩
  simp only [zero_add] at hg'
  have hopen : g'.tx ≠ none := by
    rw [hg'.isOpen]
    simp
  refine (Prog.wp_bind _ _ _ _ _).mpr ?_
  refine Prog.wp_mono (wp_findOrderWithItems_open (silent_open hopen)) ?_ (fun _ _ h => h)
  rintro a _ ⟨rfl, ha⟩
  cases a with
  | none => rfl
  | some e =>
    have hid : e.id = o := by simpa using (ha e rfl).1
    refine (Prog.wp_bind _ _ _ _ _).mpr ?_
    refine Prog.wp_mono (wp_commit hx hg') ?_ (fun _ _ h => h)
    rintro _ _ rfl
    rw [← hid]
    rfl

/-- An answer found by key is a committed order with that key. -/
def Found (key : Option String) (a : OrderEntity) (x' : Sale) : Prop :=
  (a.id, a.row) ∈ x'.observed ∧ ∃ k, truthy key = some k ∧ a.row.idempotencyKey = some k

theorem wp_findOne_closed {cond : Uuid → Order → Bool} (hg : g.tx = none)
    {Q : Option (Uuid × Order) → Session schema × Sale → Prop}
    (hok : ∀ rows : List (Uuid × Order), (∀ e ∈ rows, cond e.1 e.2 = true) →
      Q rows.head? (g, { x with observed := x.observed ++ rows })) :
    (findOne .orders cond).wp createRules.protocol Q (fun _ _ => True) (g, x) := by
  refine (Prog.wp_bind _ _ _ _ _).mpr ?_
  refine Rules.wp_sql trivial (.inl rfl) ?_ (fun _ _ _ _ _ => trivial)
  intro rows g' x' hn hx
  have hnext : createNext x g (.sql (.stmt (.select .orders cond))) (.ok rows) =
      { x with observed := x.observed ++ (show List (Uuid × Order) from rows) } := by
    simp [createNext, hg]
  obtain rfl := hx.trans hnext
  cases hn with
  | select _ _ _ h => exact hok rows h.meets

theorem wp_findByKey {key : Option String} (hg : g.tx = none) :
    (findByKey key).wp createRules.protocol
      (fun a g' => g'.1 = g ∧ (∃ rows, g'.2 = { x with observed := x.observed ++ rows }) ∧
        ∀ e, a = some e → Found key e g'.2)
      (fun _ _ => True) (g, x) := by
  unfold findByKey
  split
  · next k hk =>
    refine (Prog.wp_bind _ _ _ _ _).mpr ?_
    refine wp_findOne_closed hg ?_
    intro rows hrows
    cases hrow : rows.head? with
    | none => exact ⟨rfl, ⟨rows, rfl⟩, by simp⟩
    | some row =>
      have hmem : row ∈ rows := List.mem_of_head? hrow
      refine (Prog.wp_bind _ _ _ _ _).mpr ?_
      refine Rules.wp_find (silent_select (by simp) _) ?_ (fun _ => trivial)
      intro items _
      refine ⟨rfl, ⟨rows, rfl⟩, ?_⟩
      rintro e he
      obtain rfl := Option.some.inj he
      exact ⟨List.mem_append_right _ hmem, k, hk, by simpa using hrows row hmem⟩
  · next hk => exact ⟨rfl, ⟨[], by simp⟩, by simp⟩

def Answered (call : CreateCall) (a : CreateResult) (g : Session schema × Sale) : Prop :=
  g.2.call = call ∧ (a.wasDuplicate = false → g.2.done = some a.order.id) ∧
    (a.wasDuplicate = true → Found call.key a.order g.2)

theorem wp_createFailed (error : Thrown) :
    (createFailed x.call.key error).wp createRules.protocol
      (fun a g' => a.wasDuplicate = true ∧ Answered x.call a g') (fun _ _ => True) (g, x) := by
  refine (Prog.wp_bind _ _ _ _ _).mpr ?_
  refine Rules.wp_sql trivial trivial ?_ (fun _ _ _ _ _ => trivial)
  intro _ g' x' hn hx
  obtain rfl : x' = x := hx
  cases hn with
  | rollback =>
    split
    · refine (Prog.wp_bind _ _ _ _ _).mpr ?_
      refine Prog.wp_mono (wp_findByKey rfl) ?_ (fun _ _ h => h)
      rintro a ⟨g', x'⟩ ⟨rfl, ⟨rows, rfl⟩, ha⟩
      cases a with
      | none => trivial
      | some e => exact ⟨rfl, rfl, by simp, fun _ => ha e rfl⟩
    · trivial

theorem wp_publishOrderCreated {order : OrderEntity} (hx : x.announced = false)
    (hdone : x.done = some order.id) :
    (publishOrderCreated order).wp createRules.protocol
      (fun _ g' => g'.2.call = x.call ∧ g'.2.done = x.done) (fun _ _ => True) (g, x) := by
  refine (Prog.wp_bind _ _ _ _ _).mpr ?_
  refine Rules.wp_other (by simp) trivial ?_ (fun _ _ _ => trivial)
  intro messageId x' hx'
  obtain rfl : x' = x := hx'
  dsimp only
  split
  · trivial
  · refine (Prog.wp_bind _ _ _ _ _).mpr ?_
    refine (Prog.wp_bind _ _ _ _ _).mpr ?_
    refine Rules.wp_other (by simp) trivial ?_ (fun _ _ _ => trivial)
    intro ready x'' hx''
    obtain rfl : x'' = x' := hx''
    cases ready with
    | false => exact ⟨rfl, rfl⟩
    | true =>
      refine Rules.wp_other (by simp) ⟨hx, order.id, hdone, rfl⟩ ?_ (fun _ _ _ => trivial)
      intro _ x' hx'
      obtain rfl : x' = { x'' with announced := true } := hx'
      exact ⟨rfl, rfl⟩

theorem wp_createOrder {userId : Uuid} (hdone : x.done = none) (hx : x.announced = false)
    (hg : g.tx = none) :
    (createOrder x.call.dto userId x.call.key).wp createRules.protocol
      (Answered x.call) (fun _ _ => True) (g, x) := by
  refine (Prog.wp_bind _ _ _ _ _).mpr ?_
  refine Rules.wp_sql hg trivial ?_ (fun _ _ _ _ _ => trivial)
  intro _ g' x' hn hx'
  obtain rfl : x' = x := hx'
  cases hn with
  | start =>
    refine (Prog.wp_bind _ _ _ _ _).mpr ?_
    refine (Prog.wp_tryCatch _ _ _ _ _).mpr ?_
    refine (Prog.wp_bind _ _ _ _ _).mpr ?_
    refine Prog.wp_mono (wp_createInTransaction hdone rfl) ?_ ?_
    · rintro a _ rfl
      refine (Prog.wp_bind _ _ _ _ _).mpr ?_
      refine Prog.wp_mono (wp_publishOrderCreated hx rfl) ?_ (fun _ _ h => h)
      rintro _ ⟨g', x'⟩ ⟨hcall, hd⟩
      exact ⟨hcall, fun _ => hd, by simp⟩
    · rintro e ⟨g', x'⟩ rfl
      refine (Prog.wp_bind _ _ _ _ _).mpr ?_
      refine Prog.wp_mono (wp_createFailed e) ?_ (fun _ _ h => h)
      rintro a g' ⟨_, ha⟩
      exact ha

theorem wp_create (call : CreateCall) :
    call.program.wp createRules.protocol (Answered call) (fun _ _ => True)
      (.closed, Sale.begin call) := by
  refine (Prog.wp_bind _ _ _ _ _).mpr ?_
  refine Prog.wp_mono (wp_findByKey rfl) ?_ (fun _ _ h => h)
  rintro a ⟨g', x'⟩ ⟨rfl, ⟨rows, rfl⟩, ha⟩
  cases a with
  | some e => exact ⟨rfl, by simp, fun _ => ha e rfl⟩
  | none =>
    dsimp only
    split
    · trivial
    · refine (Prog.wp_bind _ _ _ _ _).mpr ?_
      refine Rules.wp_findOneById (fun _ => silent_select (by simp) _) silent_malformed ?_
        (fun _ => trivial)
      intro users u _ _
      cases users.head? with
      | none => trivial
      | some user =>
        exact wp_createOrder
          (x := { Sale.begin call with observed := (Sale.begin call).observed ++ rows }) rfl rfl rfl

end

end Ecomm
