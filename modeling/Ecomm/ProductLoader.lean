import Ecomm.Integrity
import Ecomm.Lib.Lawful

/-! `ProductLoader`: the products of the order items of a query, a batch of ids
at a time, while other calls write. -/

namespace Ecomm

open Concurrent Sql ProductsService

/-- `where: { id: In(ids) }` with ids that came as text. -/
def findByIds (t : Table) (ids : List String) : App (List (Uuid × t.Row)) :=
  match ids.mapM uuidIn with
  | some us => find t (fun j _ => j ∈ us)
  | none => reject .invalidText

namespace ProductLoader

/-- `map.get(id) ?? null`, where the last entry of a key counts. -/
def get (products : List (Uuid × Product)) (id : String) : Option (Uuid × Product) :=
  products.reverse.find? (fun p => uuidOut p.1 = id)

def batchLoad (ids : List String) : App (List (Option (Uuid × Product))) := do
  let products ← findByIds .products ids
  pure (ids.map (get products))

/-- The product whose id is spelled as the server spells it. -/
def productAt (T : Database) (id : String) : Option (Uuid × Product) :=
  ((uuidIn id).filter (fun u => uuidOut u = id)).bind
    (fun u => ((T .products).lookup u).map (fun r => (u, r)))

theorem productAt_uuidOut (T : Database) (u : Uuid) :
    productAt T (uuidOut u) = ((T .products).lookup u).map (fun r => (u, r)) := by
  rw [productAt, uuidIn_uuidOut, Option.filter_some_pos (by simp), Option.bind_some]

theorem get_some {products : List (Uuid × Product)} {id : String} {e : Uuid × Product}
    (h : get products id = some e) : e ∈ products ∧ uuidOut e.1 = id := by
  refine ⟨List.mem_reverse.mp (List.mem_of_find?_eq_some h), ?_⟩
  simpa using List.find?_some h

theorem get_none {products : List (Uuid × Product)} {id : String} (h : get products id = none) :
    ∀ e ∈ products, uuidOut e.1 ≠ id := by
  intro e he
  simpa using List.find?_eq_none.mp h e (List.mem_reverse.mpr he)

theorem get_eq {T : Database} {id : String} {u : Uuid} {products : List (Uuid × Product)}
    (hu : uuidIn id = some u) (hsound : ∀ e ∈ products, (T .products).lookup e.1 = some e.2)
    (hall : ∀ r, (T .products).lookup u = some r → (u, r) ∈ products) :
    get products id = productAt T id := by
  cases hfound : get products id with
  | some e =>
    obtain ⟨hmem, hspelled⟩ := get_some hfound
    rw [← hspelled, productAt_uuidOut, hsound e hmem]
    rfl
  | none =>
    have habsent := get_none hfound
    rw [productAt, hu]
    by_cases hspelled : uuidOut u = id
    · have hnone : (T .products).lookup u = none := by
        cases hr : (T .products).lookup u with
        | none => rfl
        | some r => exact (habsent (u, r) (hall r hr) hspelled).elim
      simp only [Option.filter_some, hspelled, decide_true, if_true, Option.bind_some, hnone,
        Option.map_none]
    · simp only [Option.filter_some, hspelled, decide_false, Bool.false_eq_true, if_false,
        Option.bind_none]

theorem batchLoad_some {ids : List String} {us : List Uuid} (hids : ids.mapM uuidIn = some us) :
    ∃ k, batchLoad ids = .op (.sql (.stmt (.select .products (fun j _ => j ∈ us)))) k ∧
      (∀ rows, k (.ok rows) = .ret (ids.map (get rows))) ∧ ∀ e, k (.error e) = .raise e := by
  simp only [batchLoad, findByIds, hids]
  exact ⟨_, rfl, fun _ => rfl, fun _ => rfl⟩

theorem batchLoad_none {ids : List String} (hids : ids.mapM uuidIn = none) :
    ∃ k, batchLoad ids = .op (.sql (.stmt (.malformed .invalidText))) k ∧
      ∀ e, k (.error e) = .raise e := by
  simp only [batchLoad, findByIds, hids]
  exact ⟨_, rfl, fun _ => rfl⟩

theorem mem_of_mapM {ids : List String} {us : List Uuid} (h : ids.mapM uuidIn = some us) :
    ∀ id ∈ ids, ∃ u ∈ us, uuidIn id = some u := by
  induction ids generalizing us with
  | nil => simp
  | cons id ids ih =>
    simp only [List.mapM_cons, Option.pure_def, Option.bind_eq_bind, Option.bind_eq_some_iff,
      Option.some.injEq] at h
    obtain ⟨u, hu, vs, hvs, rfl⟩ := h
    intro id' hid
    rcases List.mem_cons.mp hid with rfl | hid
    · exact ⟨u, List.mem_cons_self, hu⟩
    · obtain ⟨v, hv, hv'⟩ := ih hvs id' hid
      exact ⟨v, List.mem_cons_of_mem _ hv, hv'⟩

/-- What the select brings answers the batch id by id. -/
theorem map_get {T : Database} {ids : List String} {us : List Uuid}
    (hids : ids.mapM uuidIn = some us) {products : List (Uuid × Product)}
    (hrows : ∀ e, e ∈ products ↔ (T .products).lookup e.1 = some e.2 ∧ e.1 ∈ us) :
    ids.map (get products) = ids.map (productAt T) := by
  apply List.map_congr_left
  intro id hid
  obtain ⟨u, hmem, hu⟩ := mem_of_mapM hids id hid
  refine get_eq hu (fun e he => ((hrows e).mp he).1) ?_
  intro r hr
  exact (hrows (u, r)).mpr ⟨hr, hmem⟩

end ProductLoader

theorem Stocked.merge {T T' : Database} {ws : List (Write schema)} (h : Stocked T')
    (hT : Tables.Within (S := schema) T T') (hws : ∀ w ∈ ws, w.row.isSome = true)
    (hview : Stocked (Tables.replay (S := schema) T ws)) :
    Stocked (Tables.replay (S := schema) T' ws) := by
  intro id r hr
  by_cases hw : ∃ w ∈ ws, w.at .orderItems id
  · obtain ⟨row, _, hlook⟩ := Tables.lookup_replay_written hw
    have hsame := (hlook T).trans ((hlook T').symm.trans hr)
    exact hT.replay hws _ _ (hview id r hsame)
  · rw [Tables.lookup_replay_other T' (fun w hmem hat => hw ⟨w, hmem, hat⟩)] at hr
    exact Tables.isSome_replay (S := schema) hws (h id r hr)

theorem referenced_merges : Merges (S := schema) Referenced :=
  fun h hT hws hview => ⟨h.1.merge hT hws hview.1, h.2.merge hT hws hview.2⟩

/-- All threads see references that hold, and know products that they see. -/
structure Sellers (s : AppState) (γ : Nat → List Uuid) : Prop where
  orderly : s.store.Orderly (S := schema) Referenced
  known : ∀ i, ∀ p ∈ γ i, ((s.store.view i .products).lookup p).isSome = true

theorem selling_sound : selling.Sound app Always Sellers where
  exec {s γ i ch o r s'} h _ ha he := by
    have he : AppState.exec s i ch o = some (r, s') := he
    have hselling : Selling i (γ i) s :=
      ⟨⟨h.orderly.committed, h.orderly.view i⟩, h.known i⟩
    obtain ⟨g, hnext, hafter⟩ := selling_exec hselling ha he
    refine ⟨g, hnext, ?_⟩
    cases o with
    | channelReady | randomUUID | dateNow | settle _ | publishStatusChanged _ | sendToQueue _ =>
      have hstore := AppState.exec_store he (by simp)
      refine ⟨hstore ▸ h.orderly, ?_⟩
      intro j p hp
      by_cases hj : j = i
      · subst hj
        rw [Function.update_self] at hp
        exact hafter.known p hp
      · rw [Function.update_of_ne hj] at hp
        rw [hstore]
        exact h.known j p hp
    | sql q =>
      obtain ⟨a, store, hexec, rfl, rfl⟩ := AppState.exec_sql he
      have hdelete : ∀ t id, q ≠ .stmt (.delete t id) := by
        rintro t id rfl
        exact ha
      refine ⟨h.orderly.exec referenced_merges hexec hdelete ?_, ?_⟩
      · rintro q ls a ws rfl hq
        exact (h.orderly.view i).success ha (h.known i) hq
      · intro j p hp
        by_cases hj : j = i
        · subst hj
          rw [Function.update_self] at hp
          exact hafter.known p hp
        · rw [Function.update_of_ne hj] at hp
          obtain ⟨_, hwithin⟩ := h.orderly.growing.exec hexec hdelete
          exact h.orderly.growing.view_other hwithin (Store.exec_tx_other hexec hj) _ _
            (h.known j p hp)

/-- Calls that delete nothing, and the batches of the queries. -/
inductive ShopCall where
  | serve (operation : Operation)
  | createProduct (dto : CreateProductDto)
  | updateProduct (id : String) (updates : UpdateProductDto)
  | createUser (hash : String → String) (email : String) (password : Option String)
    (roles scopes : Option (List String))
  | batchLoad (ids : List String)

def ShopCall.program : ShopCall → App (List (Option (Uuid × Product)))
  | serve operation => do
    let _ ← operation.program
    pure []
  | createProduct dto => do
    let _ ← ProductsService.create dto
    pure []
  | updateProduct id updates => do
    let _ ← ProductsService.updateProduct id updates
    pure []
  | createUser hash email password roles scopes => do
    let _ ← UsersService.create hash email password roles scopes
    pure []
  | batchLoad ids => ProductLoader.batchLoad ids

abbrev shopping (s : AppState) (calls : List ShopCall) :
    Config app (List (Option (Uuid × Product))) :=
  ⟨s, fun i => calls[i]?.map ShopCall.program⟩

section Calls

variable {g : List Uuid}

theorem sellsNothing_job (job : OrderJob) : job.program.Awaits SellsNothing := by
  have hinsert : ∀ t id row, t = .orders ∨ t = .processedMessages →
      SellsNothing (.sql (.stmt (.insert t id row))) := by
    rintro t id row (rfl | rfl) _ <;> trivial
  cases job with
  | process message =>
    refine Prog.Awaits.bind ?_ (fun _ => trivial)
    apply awaits_processOrderMessage _ _ _ _ _ hinsert
    all_goals intros; exact fun _ => trivial
  | update id updates =>
    refine Prog.Awaits.bind ?_ (fun _ => trivial)
    apply awaits_updateOrder _ _ _ _ _ hinsert
    all_goals intros; exact fun _ => trivial

theorem selling_shopCall (call : ShopCall) :
    call.program.wp selling (fun _ _ => True) (fun _ _ => True) g := by
  cases call with
  | createProduct dto => exact selling_bind (selling_insert (by decide)) (fun _ _ => trivial)
  | createUser hash email password roles scopes =>
    exact selling_bind (selling_createUser hash email password roles scopes) (fun _ _ => trivial)
  | updateProduct id updates =>
    refine selling_bind (selling_awaits ?_) (fun _ _ => trivial)
    refine (awaits_findOneById (fun _ _ => trivial) (fun _ _ => trivial) id).bind ?_
    intro found
    cases found with
    | none => trivial
    | some e =>
      refine Prog.Awaits.bind (awaits_repositorySave (t := .products) ?_ ?_ ?_ ?_ ?_ ?_)
        (fun _ => trivial)
      all_goals intros; exact fun _ => trivial
  | batchLoad ids =>
    have hfind : (findByIds .products ids).Awaits SellsNothing := by
      unfold findByIds
      split
      · exact awaits_find (fun _ => trivial)
      · exact awaits_reject (fun _ _ => trivial) _
    have hload : (ProductLoader.batchLoad ids).Awaits SellsNothing :=
      Prog.Awaits.bind hfind (fun _ => trivial)
    exact selling_awaits hload
  | serve operation =>
    refine selling_bind ?_ (fun _ _ => trivial)
    cases operation with
    | create call => exact selling_bind (selling_create _ _) (fun _ _ => trivial)
    | order job =>
      exact selling_bind (selling_awaits (sellsNothing_job job)) (fun _ _ => trivial)

end Calls

section Runs

variable {α : Type} {c c' : Config app α} {es : List (Nat × AppChoice)}
  {Q : Nat → α → List Uuid → Prop} {E : Nat → Thrown → List Uuid → Prop}
  {γ : Nat → List Uuid}

/-- No row is deleted in a run of threads that keep to the protocol. -/
theorem selling_within (h : Follows selling Sellers Q E c γ) (hrun : c.run es = some c') :
    Tables.Within (S := schema) c.shared.store.tables c'.shared.store.tables := by
  induction es generalizing c γ with
  | nil =>
    obtain rfl := Option.some.inj hrun
    exact fun _ _ hr => hr
  | cons e es ih =>
    obtain ⟨d, hd, hrest⟩ := Config.run_cons hrun
    obtain ⟨o, r, g, ha, he, _, hnext⟩ := selling_sound.step_exec h trivial hd
    intro t id hr
    refine ih hnext hrest t id ?_
    have he : AppState.exec c.shared e.1 e.2 o = some (r, d.shared) := he
    cases o with
    | sql q =>
      obtain ⟨a, store, hexec, _, hshared⟩ := AppState.exec_sql he
      have hdelete : ∀ t id, q ≠ .stmt (.delete t id) := by
        rintro t id rfl
        exact ha
      rw [hshared]
      exact (h.inv.orderly.growing.exec hexec hdelete).2 t id hr
    | channelReady | randomUUID | dateNow | settle _ | publishStatusChanged _ | sendToQueue _ =>
      rwa [AppState.exec_store he (by simp)]

/-- A batch answers what the products were at one moment of the run. -/
theorem batchLoad_moment {c c' : Config app (List (Option (Uuid × Product)))}
    (hrun : c.run es = some c') {i : Nat} {ids : List String}
    (hi : c.thread i = some (ProductLoader.batchLoad ids)) (htx : c.shared.store.tx i = none)
    {answers : List (Option (Uuid × Product))} (hret : c'.thread i = some (.ret answers)) :
    ∃ before after, ∃ d : Config app (List (Option (Uuid × Product))), es = before ++ after ∧
      c.run before = some d ∧
      answers = ids.map (ProductLoader.productAt d.shared.store.tables) := by
  cases hids : ids.mapM uuidIn with
  | none =>
    obtain ⟨k, hk, herr⟩ := ProductLoader.batchLoad_none hids
    rw [hk] at hi
    rcases Config.run_first hrun hi with hsame | ⟨_, _, after, _, d', r, _, _, _, _, hnext, hafter⟩
    · cases hret.symm.trans hsame
    · cases r with
      | ok a => exact nomatch (show Empty from a)
      | error e =>
        rw [herr] at hnext
        have hend := Config.run_ended hafter (i := i) (by simp [hnext])
        rw [hret, hnext] at hend
        cases hend
  | some us =>
    obtain ⟨k, hk, hok, herr⟩ := ProductLoader.batchLoad_some hids
    rw [hk] at hi
    rcases Config.run_first hrun hi with hsame |
      ⟨before, ch, after, d, d', r, hes, hother, hbefore, hexec, hnext, hafter⟩
    · cases hret.symm.trans hsame
    · cases r with
      | error e =>
        rw [herr] at hnext
        have hend := Config.run_ended hafter (i := i) (by simp [hnext])
        rw [hret, hnext] at hend
        cases hend
      | ok rows =>
        rw [hok] at hnext
        have hend := Config.run_ended hafter (i := i) (by simp [hnext])
        rw [hret, hnext] at hend
        refine ⟨before, (i, ch) :: after, d, hes, hbefore, ?_⟩
        have hclosed : d.shared.store.tx i = none := by
          rw [run_tx_other hbefore (fun e he => (hother e he).symm), htx]
        have hexec : AppState.exec d.shared i ch _ = some (.ok rows, d'.shared) := hexec
        obtain ⟨a, store, hsql, ha, _⟩ := AppState.exec_sql hexec
        cases a with
        | error e => cases ha
        | ok rows' =>
          obtain rfl : rows = rows' := Except.ok.inj ha
          have hview := fun e => Store.exec_select (e := e) hsql
          rw [Store.view_none hclosed] at hview
          rw [Prog.ret.inj (Option.some.inj hend)]
          apply ProductLoader.map_get hids
          intro e
          rw [hview e]
          simp

end Runs

theorem shopping_follows {s : AppState} (hs : s.Quiet) (hT : Referenced s.store.tables)
    (calls : List ShopCall) :
    Follows selling Sellers (fun _ _ _ => True) (fun _ _ _ => True) (shopping s calls)
      (fun _ => []) := by
  refine ⟨⟨.quiet hT hs.tx, fun i p hp => by cases hp⟩, ?_⟩
  intro i p hp
  obtain ⟨call, _, rfl⟩ := Option.map_eq_some_iff.mp hp
  exact selling_shopCall call

/-- While orders are created, processed and edited and products and users are
added, in any order of the steps: every reference holds, the one without a foreign
key too, and a batch answers every id as one query at one moment of the run would,
so an order item that could be read by then gets its product. -/
theorem products_resolved {s : AppState} (hs : s.Quiet) (hT : Referenced s.store.tables)
    {calls : List ShopCall} {es : List (Nat × AppChoice)}
    {c : Config app (List (Option (Uuid × Product)))} (hrun : (shopping s calls).run es = some c) :
    Referenced c.shared.store.tables ∧
      ∀ i ids answers, calls[i]? = some (.batchLoad ids) → c.thread i = some (.ret answers) →
        ∃ before after, ∃ d : Config app (List (Option (Uuid × Product))), es = before ++ after ∧
          (shopping s calls).run before = some d ∧
          answers = ids.map (ProductLoader.productAt d.shared.store.tables) ∧
          ∀ first rest d₀, before = first ++ rest → (shopping s calls).run first = some d₀ →
            ∀ j (item : OrderItem), (d₀.shared.store.tables .orderItems).lookup j = some item →
              ∃ product, ProductLoader.productAt d.shared.store.tables (uuidOut item.productId) =
                some (item.productId, product) := by
  have hstart := shopping_follows hs hT calls
  refine ⟨?_, ?_⟩
  · obtain ⟨γ, hend, _⟩ := selling_sound.run hstart (Config.meets_always _ _) hrun
    exact hend.inv.orderly.committed
  · intro i ids answers hcall hret
    have hi : (shopping s calls).thread i = some (ProductLoader.batchLoad ids) := by
      show calls[i]?.map ShopCall.program = _
      rw [hcall]
      rfl
    obtain ⟨before, after, d, hes, hbefore, hanswers⟩ :=
      batchLoad_moment hrun hi (hs.tx i) hret
    refine ⟨before, after, d, hes, hbefore, hanswers, ?_⟩
    rintro first rest d₀ rfl hfirst j item hitem
    obtain ⟨b, hb, hrest⟩ := Config.run_append hbefore
    obtain rfl := Option.some.inj (hfirst.symm.trans hb)
    obtain ⟨γ, hfollows, _⟩ := selling_sound.run hstart (Config.meets_always _ _) hfirst
    have hproduct := hfollows.inv.orderly.committed.2 j item hitem
    obtain ⟨product, hlook⟩ := Option.isSome_iff_exists.mp
      (selling_within hfollows hrest .products _ hproduct)
    refine ⟨product, ?_⟩
    rw [ProductLoader.productAt_uuidOut, hlook]
    rfl

theorem referenced_penShop (n : Int) : Referenced (penShop n) := by
  constructor
  · intro t id r hr
    cases t with
    | users | products => rfl
    | orders | orderItems | processedMessages => cases hr
  · intro id r hr
    cases hr

def quillCalls : List ShopCall :=
  [.serve (.create (penOrder none 1)),
    .updateProduct (uuidOut 2) ⟨some "Quill", none, none, none, none, none⟩,
    .batchLoad [uuidOut 2, uuidOut 7]]

/-- The pen becomes a quill between the sale and the batch. -/
def quillRun : List (Nat × AppChoice) :=
  List.replicate 13 (0, tick 10) ++ List.replicate 5 (1, tick 0) ++ [(2, tick 0)]

def namesOf (c : Config app (List (Option (Uuid × Product)))) (i : Nat) :
    Option (List (Option String)) :=
  match c.thread i with
  | some (.ret answers) => some (answers.map (·.map (·.2.name)))
  | _ => none

theorem products_resolved_quill :
    ∃ c answers, (shopping (serving (penShop 1)) quillCalls).run quillRun = some c ∧
      c.thread 2 = some (.ret answers) ∧ answers.map (·.map (·.2.name)) = [some "Quill", none] ∧
      Referenced c.shared.store.tables ∧
      ∃ before after, ∃ d : Config app (List (Option (Uuid × Product))),
        quillRun = before ++ after ∧
        (shopping (serving (penShop 1)) quillCalls).run before = some d ∧
        answers = [uuidOut 2, uuidOut 7].map (ProductLoader.productAt d.shared.store.tables) := by
  have hrun : ((shopping (serving (penShop 1)) quillCalls).run quillRun).map
      (fun c => namesOf c 2) = some (some [some "Quill", none]) := by decide +kernel
  obtain ⟨c, hc, hnames⟩ := Option.map_eq_some_iff.mp hrun
  obtain ⟨hreferenced, hbatch⟩ :=
    products_resolved (serving_quiet (penShop_distinct 1)) (referenced_penShop 1) hc
  unfold namesOf at hnames
  split at hnames
  · next answers hret =>
    obtain ⟨before, after, d, hes, hbefore, hanswers, _⟩ := hbatch 2 _ answers rfl hret
    exact ⟨c, answers, hc, hret, Option.some.inj hnames, hreferenced, before, after, d, hes,
      hbefore, hanswers⟩
  · cases hnames

end Ecomm
