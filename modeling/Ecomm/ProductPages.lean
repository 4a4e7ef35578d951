import Ecomm.Entities
import Ecomm.QueryBuilder

/-! Paging through the products: each page is a query of its own. -/

namespace Ecomm

open Concurrent Paging

instance : Entity (Uuid × Product) where
  id := Prod.fst
  createdAt p := p.2.createdAt

namespace ProductsService

def getAllPaginated (pagination : Option OrdersPaginationInput) :
    Queries (Uuid × Product) (List (Uuid × Product)) :=
  let qb : SelectQueryBuilder (Uuid × Product) := ⟨false, [], none, none⟩
  queried (.getMany (qb.paginate pagination))

/-- A client that asks for page after page, up to the first empty one. -/
def allPages (n : Nat) : Nat → Nat → Queries (Uuid × Product) (Option (List (List (Uuid × Product))))
  | 0, _ => pure none
  | fuel + 1, offset => do
    let page ← getAllPaginated (some ⟨some (some n), some (some offset)⟩)
    if page = [] then pure (some [])
    else do
      let pages ← allPages n fuel (offset + n)
      pure (pages.map (page :: ·))

def productRows (products : AList (fun _ : Uuid => Product)) : List (Uuid × Product) :=
  products.entries.map (fun e => (e.1, e.2))

def creationTimes (products : AList (fun _ : Uuid => Product)) : List Nat :=
  descend id ((productRows products).map Entity.createdAt)

section Pages

variable {rows base : List (Uuid × Product)} {n fuel offset i : Nat}

theorem wp_getAllPaginated (hn : 1 ≤ n) {Q : List (Uuid × Product) → List (Uuid × Product) → Prop}
    {E : Thrown → List (Uuid × Product) → Prop} :
    (getAllPaginated (some ⟨some (some n), some (some offset)⟩)).wp
        (Prog.unblocked (querying _) Answers i) Q E rows ↔
      ∀ order : List (Uuid × Product), order.Perm rows → Descending Entity.createdAt order →
        Q (page n offset order) rows := by
  let qb : SelectQueryBuilder (Uuid × Product) := ⟨false, [], some (n : Int), some (offset : Int)⟩
  have hselected : qb.selected rows = rows := List.filter_eq_self.mpr (fun _ _ => rfl)
  have hsorts : ∀ order, qb.Sorts rows order ↔
      order.Perm rows ∧ Descending Entity.createdAt order := by
    intro order
    rw [SelectQueryBuilder.Sorts, SelectQueryBuilder.sorted, hselected]
    rfl
  have hresult : ∀ order, qb.result order = page n offset order :=
    fun order => SelectQueryBuilder.window_page hn rfl rfl order
  have htake : ∀ k ∈ qb.toTake, 0 ≤ k := by
    intro k hk
    obtain rfl := Option.some.inj hk
    exact Int.natCast_nonneg n
  have hskip : ∀ k ∈ qb.toSkip, 0 ≤ k := by
    intro k hk
    obtain rfl := Option.some.inj hk
    exact Int.natCast_nonneg offset
  have hmany := @wp_getMany _ _ _ rows i E qb htake hskip Q
  simp only [hsorts, hresult, and_imp] at hmany
  exact hmany

/-- From `offset` on, the pages contain what `rest` contains. -/
def Completes (n fuel offset : Nat) (rows rest : List (Uuid × Product)) : Prop :=
  (allPages n fuel offset).wp (Prog.unblocked (querying _) Answers 0)
    (fun pages _ => ∃ ps, pages = some ps ∧ ps.flatten.Perm rest) (fun _ _ => False) rows

/-- If no tie crosses an end of a page, it does not matter how ties are resolved. -/
theorem completes_of_separated (hn : 1 ≤ n) (hbase : Descending Entity.createdAt base)
    (hperm : base.Perm rows) (huntied : ∀ k, Separated (base.map Entity.createdAt) (k * n))
    {k : Nat} (hpos : 0 < fuel) (hfuel : rows.length < k * n + fuel) :
    Completes n fuel (k * n) rows (base.drop (k * n)) := by
  induction fuel generalizing k with
  | zero => omega
  | succ fuel ih =>
    refine (Prog.wp_bind _ _ _ _ _).mpr ((wp_getAllPaginated hn).mpr ?_)
    intro order horder hsorted
    have hlength : base.length = order.length := hperm.length_eq.trans horder.length_eq.symm
    by_cases hpage : page n (k * n) order = []
    · have hend : base.drop (k * n) = [] := by
        rw [List.drop_eq_nil_iff, hlength]
        exact (page_eq_nil hn).mp hpage
      rw [if_pos hpage, hend]
      exact ⟨[], rfl, List.Perm.nil⟩
    · rw [if_neg hpage]
      have hmore : k * n < rows.length := by
        rw [← horder.length_eq]
        exact not_le.mp (mt (page_eq_nil hn).mpr hpage)
      have hnext : (k + 1) * n = k * n + n := Nat.succ_mul k n
      have hrest := ih (k := k + 1) (by omega) (by omega)
      rw [hnext] at hrest
      refine (Prog.wp_bind _ _ _ _ _).mpr (Prog.wp_mono hrest ?_ (fun _ _ h => h))
      intro pages s hpages
      obtain ⟨ps, rfl, hps⟩ := hpages
      refine ⟨page n (k * n) order :: ps, rfl, ?_⟩
      have hsame := page_perm hsorted hbase (horder.trans hperm.symm)
        (by rw [hsorted.map_eq hbase (horder.trans hperm.symm)]; exact huntied k)
        (by rw [hsorted.map_eq hbase (horder.trans hperm.symm), ← hnext]; exact huntied (k + 1))
      rw [List.flatten_cons, ← page_append n (k * n) base]
      exact hsame.append hps

theorem Completes.next (hn : 1 ≤ n) (hbase : Descending Entity.createdAt base)
    (hperm : base.Perm rows) (hmore : offset < base.length)
    (h : Completes n fuel offset rows (base.drop offset)) :
    ∃ fuel, Completes n fuel (offset + n) rows (base.drop (offset + n)) := by
  cases fuel with
  | zero =>
    obtain ⟨ps, hps, _⟩ := h
    cases hps
  | succ fuel =>
    have hpage : page n offset base ≠ [] := mt (page_eq_nil hn).mp (not_le.mpr hmore)
    have hrest := (wp_getAllPaginated hn).mp ((Prog.wp_bind _ _ _ _ _).mp h) base hperm hbase
    rw [if_neg hpage] at hrest
    refine ⟨fuel, Prog.wp_mono ((Prog.wp_bind _ _ _ _ _).mp hrest) ?_ (fun _ _ h => h)⟩
    intro pages s hpages
    obtain ⟨ps, hps, hflat⟩ := hpages
    cases pages with
    | none => cases hps
    | some rest =>
      obtain rfl := Option.some.inj hps
      rw [List.flatten_cons, ← page_append n offset base] at hflat
      exact ⟨rest, rfl, (List.perm_append_left_iff _).mp hflat⟩

theorem completes_at (hn : 1 ≤ n) (hbase : Descending Entity.createdAt base)
    (hperm : base.Perm rows) (h : Completes n fuel 0 rows base) {k : Nat}
    (hk : k * n < base.length) : ∃ fuel, Completes n fuel (k * n) rows (base.drop (k * n)) := by
  induction k with
  | zero =>
    rw [Nat.zero_mul]
    exact ⟨fuel, h⟩
  | succ k ih =>
    have hnext : (k + 1) * n = k * n + n := Nat.succ_mul k n
    rw [hnext] at hk ⊢
    obtain ⟨fuel, hcompletes⟩ := ih (by omega)
    exact hcompletes.next hn hbase hperm (by omega)

/-- A tie that crosses the start of a page: resolved the other way, it brings a
row of the page before once more. -/
theorem Completes.page_subset (hn : 1 ≤ n) (hmore : offset < rows.length)
    {rest : List (Uuid × Product)} (h : Completes n fuel offset rows rest)
    {order : List (Uuid × Product)} (horder : order.Perm rows)
    (hsorted : Descending Entity.createdAt order) : ∀ x ∈ page n offset order, x ∈ rest := by
  cases fuel with
  | zero =>
    obtain ⟨ps, hps, _⟩ := h
    cases hps
  | succ fuel =>
    have hpage : page n offset order ≠ [] :=
      mt (page_eq_nil hn).mp (by rw [horder.length_eq]; exact not_le.mpr hmore)
    have hrest := (wp_getAllPaginated hn).mp ((Prog.wp_bind _ _ _ _ _).mp h) order horder hsorted
    rw [if_neg hpage] at hrest
    obtain ⟨chs, r, s, _, hout⟩ :=
      Prog.unblocked_run exists_answer ((Prog.wp_bind _ _ _ _ _).mp hrest)
    cases r with
    | error e => exact hout.elim
    | ok pages =>
      obtain ⟨ps, hps, hflat⟩ := hout
      cases pages with
      | none => cases hps
      | some later =>
        obtain rfl := Option.some.inj hps
        intro x hx
        rw [List.flatten_cons] at hflat
        exact hflat.subset (List.mem_append_left _ hx)

theorem separated_of_completes (hn : 1 ≤ n) (hbase : Descending Entity.createdAt base)
    (hperm : base.Perm rows) (hnodup : base.Nodup) (h : Completes n fuel 0 rows base) (k : Nat) :
    Separated (base.map Entity.createdAt) (k * n) := by
  by_contra hcut
  obtain ⟨before, x, y, after, rfl, hlength, htie⟩ := exists_tie hbase hcut
  have hmore : k * n < (before ++ x :: y :: after).length := by
    rw [List.length_append, List.length_cons, List.length_cons]
    omega
  obtain ⟨fuel, hrest⟩ := completes_at hn hbase hperm h hmore
  have hswapped : (before ++ y :: x :: after).Perm rows :=
    (List.Perm.append_left before (List.Perm.swap x y after)).trans hperm
  have hsplit : ∀ u v : Uuid × Product, (before ++ u :: v :: after).drop (k * n) = v :: after := by
    intro u v
    rw [← hlength, List.append_cons, List.drop_left' (by simp)]
  have hx : x ∈ page n (k * n) (before ++ y :: x :: after) := by
    obtain ⟨m, rfl⟩ : ∃ m, n = m + 1 := ⟨n - 1, by omega⟩
    rw [page, hsplit]
    exact List.mem_cons_self
  have hagain := hrest.page_subset hn (hperm.length_eq ▸ hmore) hswapped (hbase.swap htie) x hx
  rw [hsplit] at hagain
  have hdistinct := (List.nodup_cons.mp (List.nodup_append.mp hnodup).2.1).1
  exact hdistinct hagain

end Pages

theorem nodup_productRows (products : AList (fun _ : Uuid => Product)) :
    (productRows products).Nodup := by
  have hkeys : ((productRows products).map Prod.fst).Nodup := by
    rw [productRows, List.map_map]
    exact products.nodupKeys
  exact hkeys.of_map

/-- Whatever order the server chooses among products of the same time, page by
page, the pages contain every product once: that is so exactly if no end of a
page lies between products of the same time. -/
theorem pages_complete_iff (products : AList (fun _ : Uuid => Product)) {n fuel : Nat} (hn : 1 ≤ n)
    (hfuel : products.entries.length < fuel) :
    (allPages n fuel 0).wp (Prog.unblocked (querying _) Answers 0)
        (fun pages _ => ∃ ps, pages = some ps ∧ ps.flatten.Perm (productRows products))
        (fun _ _ => False) (productRows products) ↔
      ∀ k, Separated (creationTimes products) (k * n) := by
  obtain ⟨base, hperm, hbase⟩ : ∃ base : List (Uuid × Product),
      base.Perm (productRows products) ∧ Descending Entity.createdAt base :=
    ⟨_, descend_perm _ _, descending_descend _ _⟩
  have htimes : base.map Entity.createdAt = creationTimes products :=
    ((hperm.map _).trans (descend_perm _ _).symm).eq_of_pairwise
      (fun _ _ _ _ hab hba => le_antisymm hba hab) hbase.keys (descending_descend id _)
  have hrows : (productRows products).length = products.entries.length := List.length_map ..
  rw [← htimes]
  constructor
  · intro h
    have hcompletes : Completes n fuel 0 (productRows products) base := by
      refine Prog.wp_mono h ?_ (fun _ _ h => h)
      intro pages s hpages
      obtain ⟨ps, hps, hflat⟩ := hpages
      exact ⟨ps, hps, hflat.trans hperm.symm⟩
    exact separated_of_completes hn hbase hperm
      (hperm.nodup_iff.mpr (nodup_productRows products)) hcompletes
  · intro huntied
    have hpos : 0 < fuel := by omega
    have hcompletes := completes_of_separated (k := 0) hn hbase hperm huntied hpos
      (by rw [Nat.zero_mul, Nat.zero_add, hrows]; exact hfuel)
    rw [Nat.zero_mul] at hcompletes
    refine Prog.wp_mono hcompletes ?_ (fun _ _ h => h)
    intro pages s hpages
    obtain ⟨ps, hps, hflat⟩ := hpages
    exact ⟨ps, hps, hflat.trans hperm⟩

/-- Two products of one bulk insert. -/
def seeded : AList (fun _ : Uuid => Product) :=
  let product (name : String) : Product := ⟨name, name, none, 1, 5, true, 7, 7⟩
  AList.insert 1 (product "Notebook") (AList.singleton 2 (product "Wireless Mouse"))

theorem pages_complete_iff_seeded :
    (allPages 2 3 0).wp (Prog.unblocked (querying _) Answers 0)
      (fun pages _ => ∃ ps, pages = some ps ∧ ps.flatten.Perm (productRows seeded))
      (fun _ _ => False) (productRows seeded) := by
  refine (pages_complete_iff seeded (by decide) (by decide)).mpr ?_
  intro k
  have htimes : creationTimes seeded = [7, 7] := by decide +kernel
  rw [htimes]
  intro a ha b hb
  cases k with
  | zero => simp at ha
  | succ k =>
    rw [List.drop_eq_nil_of_le (by simp only [List.length_cons, List.length_nil]; omega)] at hb
    cases hb

/-- Page by page the server orders the two products the other way: one comes
twice, the other not at all. -/
theorem pages_repeat : ¬ ∀ (products : AList (fun _ : Uuid => Product)) (n fuel : Nat), 1 ≤ n →
    products.entries.length < fuel → ∀ chs ps s, (∀ c ∈ chs, c.fault = none) →
    (allPages n fuel 0).eval (querying _) 0 (productRows products) chs = some (.ok (some ps), s) →
    ps.flatten.Perm (productRows products) := by
  intro h
  have hrun : ((allPages 1 3 0).eval (querying _) 0 (productRows seeded)
      [⟨productRows seeded, none⟩, ⟨(productRows seeded).reverse, none⟩,
        ⟨productRows seeded, none⟩]).map (fun x => x.1.toOption) =
      some (some (some [[(1, ⟨"Notebook", "Notebook", none, 1, 5, true, 7, 7⟩)],
        [(1, ⟨"Notebook", "Notebook", none, 1, 5, true, 7, 7⟩)]])) := by decide +kernel
  obtain ⟨⟨r, s⟩, hr, hresult⟩ := Option.map_eq_some_iff.mp hrun
  cases r with
  | error e => cases hresult
  | ok pages =>
    obtain rfl := Option.some.inj hresult
    have hperm := h seeded 1 3 (by decide) (by decide) _ _ s (by decide) hr
    revert hperm
    decide +kernel

end ProductsService

end Ecomm
