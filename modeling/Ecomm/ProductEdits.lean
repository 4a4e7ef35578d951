import Ecomm.EditRules
import Ecomm.Stock

/-! `updateProduct` among `create` calls: the stock of a product that is edited
while it is sold. -/

namespace Ecomm

open Concurrent Sql ProductsService

inductive ProductJob where
  | create (call : CreateCall)
  | update (id : String) (updates : UpdateProductDto)

def ProductJob.program : ProductJob → App (CreateResult ⊕ Uuid × Product)
  | create call => do
    let result ← call.program
    pure (.inl result)
  | update id updates => do
    let product ← updateProduct id updates
    pure (.inr product)

def trading (s : AppState) (jobs : List ProductJob) : Config app (CreateResult ⊕ Uuid × Product) :=
  ⟨s, fun i => (jobs[i]?).map ProductJob.program⟩

def stockColumn : (t : Table) → t.Row → Option Int
  | .products, r => some r.stock
  | _, _ => none

def ProductJob.target : ProductJob → Option (Target (Option Int))
  | .update id _ => some ⟨.products, uuidIn id, stockColumn⟩
  | .create _ => none

def productTargets (jobs : List ProductJob) (i : Nat) : Option (Target (Option Int)) :=
  (jobs[i]?).bind ProductJob.target

theorem stock_respected (id : Option Uuid) :
    (⟨.products, id, stockColumn⟩ : Target (Option Int)).Respected := by
  intro e o now r h
  have hstock : e.stock = o.stock := by simpa [stockColumn] using h
  simp [stockColumn, saveColumns, column, hstock]

theorem stock_merge {updates : UpdateProductDto} (h : updates.stock = none) (p : Product) :
    stockColumn .products (updates.merge p) = stockColumn .products p := by
  simp [stockColumn, UpdateProductDto.merge, h]

def saleOf : Option ProductJob → Sale
  | some (.create call) => .begin call
  | _ => .begin default

/-- What left the stock of the products since `T₀` is what the order items say. -/
structure Balanced (T₀ : Database) (s : AppState)
    (γ : Nat → Session schema × (Edit (Option Int) ⊕ Sale)) : Prop where
  total : ∀ p, stock s.store.tables p + sold s.store.tables p = stock T₀ p + sold T₀ p
  edits : ∀ i x, (γ i).2 = .inl x → x.target.table = .products ∧ x.target.col = stockColumn

section Balanced

variable {T₀ : Database} {s s' : AppState} {i : Nat} {g' : Session schema}
  {γ : Nat → Session schema × (Edit (Option Int) ⊕ Sale)} {z : Edit (Option Int) ⊕ Sale}

theorem Balanced.update (h : Balanced T₀ s γ)
    (htotal : ∀ p, stock s'.store.tables p + sold s'.store.tables p =
      stock s.store.tables p + sold s.store.tables p)
    (hz : ∀ x, z = .inl x → x.target.table = .products ∧ x.target.col = stockColumn) :
    Balanced T₀ s' (Function.update γ i (g', z)) where
  total p := (htotal p).trans (h.total p)
  edits j x hx := by
    by_cases hj : j = i
    · subst hj
      rw [Function.update_self] at hx
      exact hz x hx
    · rw [Function.update_of_ne hj] at hx
      exact h.edits j x hx

theorem stock_of_column {T T' : Database} {p : Uuid}
    (h : ((T' .products).lookup p).map (stockColumn .products) =
      ((T .products).lookup p).map (stockColumn .products)) :
    ((T' .products).lookup p).map (·.stock) = ((T .products).lookup p).map (·.stock) := by
  cases hr : (T .products).lookup p <;> cases hr' : (T' .products).lookup p <;>
    simp_all [stockColumn]

theorem stock_eq_map (T : Database) (p : Uuid) :
    stock T p = (((T .products).lookup p).map (·.stock)).getD 0 := by
  unfold stock
  cases (T .products).lookup p <;> rfl

theorem LeavesAlone.total {a : Target (Option Int)} (h : LeavesAlone a s s')
    (ht : a.table = .products) (hcol : a.col = stockColumn) (p : Uuid) :
    stock s'.store.tables p + sold s'.store.tables p =
      stock s.store.tables p + sold s.store.tables p := by
  have hitems : s'.store.tables .orderItems = s.store.tables .orderItems :=
    h.other .orderItems (by simp [ht])
  have hcolumn := h.column .products p
  rw [hcol] at hcolumn
  have hsold : sold s'.store.tables p = sold s.store.tables p := by
    unfold sold Tables.tally
    rw [hitems]
  rw [stock_eq_map, stock_of_column hcolumn, ← stock_eq_map, hsold]

end Balanced

theorem trading_sound (targets : Nat → Option (Target (Option Int))) (T₀ : Database) :
    (editRules.either createRules).protocol.Sound (recording app) (Rereads targets)
      (Editing targets (Balanced T₀)) := by
  refine edits_sound ?_ ?_
  · intro s s' γ i ch o r g' x x' hinv hx _ _ hleaves htarget
    obtain ⟨ht, hcol⟩ := hinv.rest.edits i x hx
    refine hinv.rest.update (hleaves.total ht hcol) ?_
    intro y hy
    obtain rfl := Sum.inl.inj hy
    rw [htarget]
    exact ⟨ht, hcol⟩
  · intro s s' γ i ch o r g' y hinv hy ha he hchange hlearns hown
    refine ⟨_, rfl, hinv.rest.update ?_ (by simp)⟩
    intro p
    have hwrites : ∀ q, o = .sql (.stmt q) → q.reads = true ∨ (γ i).1.tx ≠ none := by
      rintro q rfl
      exact ha
    have htables : s'.store.tables = _ := (hchange hwrites).tables
    cases hws : commits (γ i).1 o r with
    | none =>
      have hsame : s'.store.tables = s.store.tables := by simpa [hws] using htables
      rw [hsame]
    | some ws =>
      obtain ⟨rfl, htx⟩ := commits_eq_some hws
      obtain ⟨_, order, hacc⟩ := ha
      have heq : ws = (γ i).1.writes := by simp [Session.writes, htx]
      have hreplay : s'.store.tables = s.store.tables.replay (γ i).1.writes := by
        simpa [hws, heq] using htables
      rw [hreplay, hacc.stock_commit (hinv.session i), hacc.sold_commit (hinv.session i)]
      ring

def NoStock (jobs : List ProductJob) : Prop :=
  ∀ id updates, .update id updates ∈ jobs → updates.stock = none

theorem trading_begin {s : AppState} (hs : s.Quiet) {jobs : List ProductJob}
    (hjobs : NoStock jobs) :
    Follows (editRules.either createRules).protocol
      (Editing (productTargets jobs) (Balanced s.store.tables))
      (fun _ _ _ => True) (fun _ _ _ => True) (trading s jobs).recorded
      (fun i => (.closed, (productTargets jobs i).elim (.inr (saleOf jobs[i]?))
        (fun a => .inl (.begin a)))) where
  inv := by
    refine ⟨hs.coherent, hs.session, Edits.begin _ (fun _ => rfl), fun _ => rfl, ?_⟩
    intro i x hx
    cases hj : jobs[i]? with
    | none =>
      simp only [productTargets, hj] at hx
      cases hx
    | some job =>
      cases job with
      | create call =>
        simp only [productTargets, hj] at hx
        cases hx
      | update id updates =>
        simp only [productTargets, hj] at hx
        obtain rfl := Sum.inl.inj hx
        exact ⟨rfl, rfl⟩
  thread i p hp := by
    obtain ⟨job, hjob, rfl⟩ := Option.map_eq_some_iff.mp hp
    cases job with
    | create call =>
      have hnone : productTargets jobs i = none := by
        rw [productTargets, hjob]
        rfl
      have hwp := Rules.wp_inr (editRules (V := Option Int)) (wp_create call)
      simp only [hnone, hjob]
      exact (Prog.wp_bind _ _ _ _ _).mpr
        (Prog.wp_mono hwp (fun _ _ _ => trivial) (fun _ _ _ => trivial))
    | update id updates =>
      have hsome : productTargets jobs i = some ⟨.products, uuidIn id, stockColumn⟩ := by
        rw [productTargets, hjob]
        rfl
      have hstock : updates.stock = none := hjobs id updates (List.mem_of_getElem? hjob)
      have hwp := Rules.wp_inl createRules
        (edit_updateProduct id updates (stock_respected _) (stock_merge hstock))
      simp only [hsome]
      exact (Prog.wp_bind _ _ _ _ _).mpr
        (Prog.wp_mono hwp (fun _ _ _ => trivial) (fun _ _ _ => trivial))

/-- What the edits of a run that leads to `c` must not disturb. -/
structure SalesKept (jobs : List ProductJob) (T₀ : Database)
    (c : Config (recording app) (CreateResult ⊕ Uuid × Product)) : Prop where
  total : ∀ p, stock c.shared.1.store.tables p + sold c.shared.1.store.tables p =
    stock T₀ p + sold T₀ p
  edit : ∀ i id updates, jobs[i]? = some (.update id updates) → ∀ ch c', c.step i ch = some c' →
    ∀ p, ((c'.shared.1.store.tables .products).lookup p).map (·.stock) =
      ((c.shared.1.store.tables .products).lookup p).map (·.stock)

/-- Whatever the interleaving, an edit that names no stock undoes no sale, if
every edit finds the stock at its second read as at its first. -/
theorem product_edit_keeps_sales {s : AppState} (hs : s.Quiet) {jobs : List ProductJob}
    (hjobs : NoStock jobs) {es : List (Nat × AppChoice)}
    {c : Config (recording app) (CreateResult ⊕ Uuid × Product)}
    (hrereads : (trading s jobs).recorded.Meets (Rereads (productTargets jobs)) es)
    (h : (trading s jobs).recorded.run es = some c) : SalesKept jobs s.store.tables c := by
  obtain ⟨γ, hγ, _⟩ := (trading_sound (productTargets jobs) s.store.tables).run
    (trading_begin hs hjobs) hrereads h
  constructor
  · exact hγ.inv.rest.2.total
  · intro i id updates hjob ch c' hstep p
    have hsome : productTargets jobs i = some ⟨.products, uuidIn id, stockColumn⟩ := by
      rw [productTargets, hjob]
      rfl
    exact stock_of_column ((edits_leave hγ hsome hstep).column .products p)

/-- The pen gets another name while one is sold. -/
def renameAndSell : List ProductJob :=
  [.update (uuidOut 2) ⟨some "Fountain pen", none, none, none, none, none⟩,
    .create (penOrder none 1)]

theorem renameAndSell_noStock : NoStock renameAndSell := by
  intro id updates h
  simp only [renameAndSell, List.mem_cons, ProductJob.update.injEq, reduceCtorEq, List.not_mem_nil,
    or_false] at h
  rw [h.2]

theorem product_edit_keeps_sales_after :
    ∃ c, (trading (serving (penShop 5)) renameAndSell).recorded.run
        (List.replicate 13 (1, tick 3) ++ List.replicate 5 (0, tick 4)) = some c ∧
      SalesKept renameAndSell (penShop 5) c := by
  have hrereads : (trading (serving (penShop 5)) renameAndSell).recorded.Meets
      (Rereads (productTargets renameAndSell))
      (List.replicate 13 (1, tick 3) ++ List.replicate 5 (0, tick 4)) := by decide +kernel
  have hrun : ((trading (serving (penShop 5)) renameAndSell).recorded.run
      (List.replicate 13 (1, tick 3) ++ List.replicate 5 (0, tick 4))).isSome = true := by
    decide +kernel
  exact ⟨_, (Option.some_get hrun).symm, product_edit_keeps_sales
    (serving_quiet (penShop_distinct 5)) renameAndSell_noStock hrereads
    (Option.some_get hrun).symm⟩

/-- The edit loads the pen, the pen is sold, and the edit saves what it loaded. -/
theorem product_edit_keeps_sales_around :
    ¬ ∀ (s : AppState), s.Quiet → ∀ jobs, NoStock jobs → ∀ es c,
      (trading s jobs).run es = some c → ∀ p,
      stock c.shared.store.tables p + sold c.shared.store.tables p =
        stock s.store.tables p + sold s.store.tables p := by
  intro h
  have hrun : ((trading (serving (penShop 5)) renameAndSell).run
      ([(0, tick 4)] ++ List.replicate 13 (1, tick 3) ++ List.replicate 4 (0, tick 4))).map
      (fun c => stock c.shared.store.tables 2 + sold c.shared.store.tables 2) = some 6 := by
    decide +kernel
  obtain ⟨c, hc, htotal⟩ := Option.map_eq_some_iff.mp hrun
  have hkept := h _ (serving_quiet (penShop_distinct 5)) _ renameAndSell_noStock _ c hc 2
  rw [htotal] at hkept
  revert hkept
  decide +kernel

end Ecomm
