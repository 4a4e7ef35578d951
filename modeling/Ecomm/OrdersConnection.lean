import Ecomm.OrdersService
import Ecomm.QueryBuilder

/-! The connection of orders: a page of the orders that match a filter, with
their number and whether more follow. -/

namespace Ecomm

open Concurrent Paging

deriving instance DecidableEq for OrderEntity

instance : Entity OrderEntity where
  id := OrderEntity.id
  createdAt order := order.row.createdAt

structure OrdersFilterInput where
  status : Option OrderStatus
  dateFrom : Option Int
  dateTo : Option Int

structure PageInfo where
  hasNextPage : Bool
  hasPreviousPage : Bool

structure OrdersConnection where
  nodes : List OrderEntity
  totalCount : Nat
  pageInfo : PageInfo

namespace OrdersService

def validateFilters (filter : Option OrdersFilterInput) : Queries OrderEntity Unit :=
  match filter.bind (·.dateFrom), filter.bind (·.dateTo) with
  | some dateFrom, some dateTo =>
    if dateFrom > dateTo then throw (.badRequest "dateFrom must be <= dateTo") else pure ()
  | _, _ => pure ()

/-- In a comparison `null` is zero. -/
def validatePagination (pagination : Option OrdersPaginationInput) : Queries OrderEntity Unit :=
  if (pagination.bind (·.limit)).any (fun limit => limit.getD 0 ≤ 0) then
    throw (.badRequest "limit must be greater than 0")
  else if (pagination.bind (·.offset)).any (fun offset => offset.getD 0 < 0) then
    throw (.badRequest "offset must be 0 or greater")
  else pure ()

def filtered (filter : Option OrdersFilterInput) : SelectQueryBuilder OrderEntity :=
  let qb : SelectQueryBuilder OrderEntity := ⟨true, [], none, none⟩
  let qb := (filter.bind (·.status)).elim qb
    (fun status => qb.andWhere (fun order => order.row.status = status))
  let qb := (filter.bind (·.dateFrom)).elim qb
    (fun dateFrom => qb.andWhere (fun order => (order.row.createdAt : Int) ≥ dateFrom))
  (filter.bind (·.dateTo)).elim qb
    (fun dateTo => qb.andWhere (fun order => (order.row.createdAt : Int) ≤ dateTo))

def getAllConnection (filter : Option OrdersFilterInput)
    (pagination : Option OrdersPaginationInput) : Queries OrderEntity OrdersConnection := do
  validateFilters filter
  validatePagination pagination
  let qb := filtered filter
  tryCatch (do
    let totalCount : Nat ← queried (.getCount qb)
    let nodes ← queried (.getMany (qb.paginate pagination))
    let limit : Int := (pagination.bind (·.limit)).join.getD totalCount
    let offset : Int := (pagination.bind (·.offset)).join.getD 0
    pure
      { nodes, totalCount
        pageInfo := { hasNextPage := offset + limit < totalCount, hasPreviousPage := offset > 0 } })
    (fun _ => throw (.error "Failed to fetch orders"))

/-- A client that asks for the next page as long as there is one. -/
def allConnections (filter : Option OrdersFilterInput) (n : Nat) :
    Nat → Nat → Queries OrderEntity (Option (List OrdersConnection))
  | 0, _ => pure none
  | fuel + 1, offset => do
    let page ← getAllConnection filter (some ⟨some (some n), some (some offset)⟩)
    if page.pageInfo.hasNextPage then do
      let pages ← allConnections filter n fuel (offset + n)
      pure (pages.map (page :: ·))
    else pure (some [page])

/-- The orders with their items, as the join brings them. -/
def orderRows (orders : AList (fun _ : Uuid => Order)) (items : AList (fun _ : Uuid => OrderItem)) :
    List OrderEntity :=
  orders.entries.map (fun e => ⟨e.1, e.2, (items.entries.filter (fun i => i.2.orderId = e.1)).map
    (fun i => (i.1, i.2))⟩)

structure Matches (filter : Option OrdersFilterInput) (order : OrderEntity) : Prop where
  status : ∀ status ∈ filter.bind (·.status), order.row.status = status
  dateFrom : ∀ dateFrom ∈ filter.bind (·.dateFrom), dateFrom ≤ order.row.createdAt
  dateTo : ∀ dateTo ∈ filter.bind (·.dateTo), order.row.createdAt ≤ dateTo

theorem filtered_all {filter : Option OrdersFilterInput} (order : OrderEntity) :
    (filtered filter).conditions.all (fun condition => condition order) = true ↔
      Matches filter order := by
  have hoption : ∀ {β : Type} (v : Option β) (qb : SelectQueryBuilder OrderEntity)
      (cond : β → OrderEntity → Bool),
      (v.elim qb (fun b => qb.andWhere (cond b))).conditions.all (fun condition => condition order) =
        (qb.conditions.all (fun condition => condition order) && v.all (fun b => cond b order)) := by
    intro β v qb cond
    cases v with
    | none => simp
    | some b => simp [SelectQueryBuilder.andWhere]
  simp only [filtered, hoption, List.all_nil, Bool.true_and, Bool.and_eq_true, Option.all_eq_true,
    decide_eq_true_eq]
  constructor
  · intro h
    exact ⟨h.1.1, h.1.2, h.2⟩
  · intro h
    exact ⟨⟨h.status, h.dateFrom⟩, h.dateTo⟩

instance (filter : Option OrdersFilterInput) (order : OrderEntity) :
    Decidable (Matches filter order) := decidable_of_iff _ (filtered_all order)

def matching (filter : Option OrdersFilterInput) (rows : List OrderEntity) : List OrderEntity :=
  rows.filter (fun order => decide (Matches filter order))

section Connection

variable {filter : Option OrdersFilterInput} {pagination : Option OrdersPaginationInput}
  {rows : List OrderEntity} {i : Nat}

theorem paginate_selected : ((filtered filter).paginate pagination).selected rows =
    matching filter rows := by
  have hconditions : ((filtered filter).paginate pagination).conditions =
      (filtered filter).conditions := by
    simp only [SelectQueryBuilder.paginate]
    cases pagination.bind (·.limit) <;> cases pagination.bind (·.offset) <;> rfl
  apply List.filter_congr
  intro order _
  rw [hconditions, Bool.eq_iff_iff, filtered_all, decide_eq_true_iff]

theorem filtered_selected : (filtered filter).selected rows = matching filter rows :=
  @paginate_selected filter none rows

theorem filtered_joined : (filtered filter).joined = true ∧ (filtered filter).toTake = none ∧
    (filtered filter).toSkip = none := by
  simp only [filtered]
  cases filter.bind (·.status) <;> cases filter.bind (·.dateFrom) <;>
    cases filter.bind (·.dateTo) <;> exact ⟨rfl, rfl, rfl⟩

/-- The limit, if it is given as a number. -/
def limitOf (pagination : Option OrdersPaginationInput) : Option Int :=
  (pagination.bind (·.limit)).join

def offsetOf (pagination : Option OrdersPaginationInput) : Option Int :=
  (pagination.bind (·.offset)).join

theorem paginate_fields : ((filtered filter).paginate pagination).joined = true ∧
    ((filtered filter).paginate pagination).toTake = limitOf pagination ∧
    ((filtered filter).paginate pagination).toSkip = offsetOf pagination := by
  obtain ⟨hjoined, htake, hskip⟩ := @filtered_joined filter
  simp only [SelectQueryBuilder.paginate, limitOf, offsetOf]
  cases pagination.bind (·.limit) <;> cases pagination.bind (·.offset) <;>
    simp [SelectQueryBuilder.take, SelectQueryBuilder.skip, hjoined, htake, hskip]

theorem accepted (h : validatePagination pagination = pure ()) :
    (∀ limit ∈ limitOf pagination, 0 < limit) ∧ ∀ offset ∈ offsetOf pagination, 0 ≤ offset := by
  rw [validatePagination] at h
  split_ifs at h with hlimit hoffset
  constructor
  · intro limit hmem
    have hgiven : pagination.bind (·.limit) = some (some limit) := Option.join_eq_some_iff.mp hmem
    rw [hgiven] at hlimit
    simpa using hlimit
  · intro offset hmem
    have hgiven : pagination.bind (·.offset) = some (some offset) := Option.join_eq_some_iff.mp hmem
    rw [hgiven] at hoffset
    simpa using hoffset

/-- What is left of the matching orders from the offset on. -/
def start (pagination : Option OrdersPaginationInput) : Nat := ((offsetOf pagination).getD 0).toNat

theorem paginate_window (order : List OrderEntity) (h : validatePagination pagination = pure ()) :
    ((filtered filter).paginate pagination).window order =
      match limitOf pagination with
      | none => order.drop (start pagination)
      | some n => page n.toNat (start pagination) order := by
  obtain ⟨hlimit, _⟩ := accepted h
  obtain ⟨_, htake, hskip⟩ := @paginate_fields filter pagination
  have hstart : ((given (offsetOf pagination)).getD 0).toNat = start pagination := by
    rw [start]
    cases hoffset : offsetOf pagination with
    | none => rfl
    | some k =>
      by_cases hzero : k = 0
      · subst hzero
        rfl
      · rw [SelectQueryBuilder.given_nonzero hzero]
  simp only [SelectQueryBuilder.window, htake, hskip, hstart]
  cases hn : limitOf pagination with
  | none => rfl
  | some n =>
    have hpos := hlimit n hn
    rw [SelectQueryBuilder.given_nonzero (by omega)]
    rfl

/-- The nodes of a page are a section of the matching orders by `createdAt` and
id; among themselves they are sorted by `createdAt`. -/
theorem nodes_perm {order : List OrderEntity}
    (h : ((filtered filter).paginate pagination).Sorts rows order) :
    (((filtered filter).paginate pagination).result order).Perm
        (((filtered filter).paginate pagination).window
          (SelectQueryBuilder.byIds (matching filter rows))) ∧
      Descending Entity.createdAt (((filtered filter).paginate pagination).result order) := by
  obtain ⟨hperm, hsorted⟩ := h
  rw [SelectQueryBuilder.sorted, paginate_selected] at hperm
  rw [SelectQueryBuilder.result]
  by_cases hpages : ((filtered filter).paginate pagination).pagesIds = true
  · rw [if_pos hpages] at hperm ⊢
    exact ⟨hperm, hsorted⟩
  · rw [if_neg hpages] at hperm ⊢
    have hwhole := SelectQueryBuilder.window_unpaged paginate_fields.1 hpages
    rw [hwhole, hwhole]
    exact ⟨hperm.trans (SelectQueryBuilder.byIds_perm _).symm, hsorted⟩

theorem wp_getAllConnection (hfilter : validateFilters filter = pure ())
    (hpagination : validatePagination pagination = pure ())
    {Q : OrdersConnection → List OrderEntity → Prop} {E : Thrown → List OrderEntity → Prop}
    (hQ : ∀ nodes, nodes.Perm (((filtered filter).paginate pagination).window
        (SelectQueryBuilder.byIds (matching filter rows))) → Descending Entity.createdAt nodes →
      Q ⟨nodes, (matching filter rows).length,
        ⟨(offsetOf pagination).getD 0 + (limitOf pagination).getD (matching filter rows).length <
          (matching filter rows).length, (offsetOf pagination).getD 0 > 0⟩⟩ rows) :
    (getAllConnection filter pagination).wp (Prog.unblocked (querying OrderEntity) Answers i) Q E
      rows := by
  obtain ⟨hlimit, hoffset⟩ := accepted hpagination
  obtain ⟨_, htake, hskip⟩ := @paginate_fields filter pagination
  rw [getAllConnection, hfilter, hpagination]
  simp only [Prog.pure_eq, Prog.ret_bind]
  refine (Prog.wp_tryCatch _ _ _ _ _).mpr ((Prog.wp_bind _ _ _ _ _).mpr (wp_getCount ?_))
  refine (Prog.wp_bind _ _ _ _ _).mpr ((wp_getMany ?_ ?_).mpr ?_)
  · intro n hn
    rw [htake] at hn
    exact (hlimit n hn).le
  · intro n hn
    rw [hskip] at hn
    exact hoffset n hn
  · intro order horder
    rw [filtered_selected]
    exact hQ _ (nodes_perm horder).1 (nodes_perm horder).2

/-- The page begins at the offset; more follow exactly if a matching order comes
after it. -/
structure PageOf (pagination : Option OrdersPaginationInput) (orders : List OrderEntity)
    (connection : OrdersConnection) : Prop where
  nodes : connection.nodes.Perm (page connection.nodes.length (start pagination) orders)
  length : ∀ n ∈ limitOf pagination,
    connection.nodes.length = min n.toNat (orders.length - start pagination)
  sorted : Descending Entity.createdAt connection.nodes
  totalCount : connection.totalCount = orders.length
  hasNextPage : connection.pageInfo.hasNextPage = true ↔
    ∃ order, order ∈ orders.drop (start pagination + connection.nodes.length)

theorem wp_connection (hfilter : validateFilters filter = pure ())
    (hpagination : validatePagination pagination = pure ())
    {Q : OrdersConnection → List OrderEntity → Prop} {E : Thrown → List OrderEntity → Prop}
    (hQ : ∀ connection, PageOf pagination (SelectQueryBuilder.byIds (matching filter rows))
      connection → Q connection rows) :
    (getAllConnection filter pagination).wp (Prog.unblocked (querying OrderEntity) Answers i) Q E
      rows := by
  apply wp_getAllConnection hfilter hpagination
  intro nodes hnodes hsorted
  apply hQ
  obtain ⟨hlimit, hoffset⟩ := accepted hpagination
  have htotal := (SelectQueryBuilder.byIds_perm (matching filter rows)).length_eq
  generalize SelectQueryBuilder.byIds (matching filter rows) = orders at hnodes htotal ⊢
  rw [← htotal]
  rw [paginate_window _ hpagination] at hnodes
  have hstart : (start pagination : Int) = (offsetOf pagination).getD 0 := by
    rw [start, Int.toNat_of_nonneg]
    cases hk : offsetOf pagination with
    | none => exact le_refl _
    | some k => exact hoffset k hk
  cases hn : limitOf pagination with
  | none =>
    rw [hn] at hnodes
    have hlength : nodes.length = (orders.drop (start pagination)).length := hnodes.length_eq
    refine ⟨?_, ?_, hsorted, rfl, ?_⟩
    · have hall : page nodes.length (start pagination) orders = orders.drop (start pagination) :=
        List.take_of_length_le hlength.ge
      rw [hall]
      exact hnodes
    · intro m hm
      rw [hn] at hm
      cases hm
    · rw [exists_mem_drop, decide_eq_true_iff, ← hstart, Option.getD_none]
      dsimp only
      rw [List.length_drop] at hlength
      omega
  | some n =>
    rw [hn] at hnodes
    have hpos := hlimit n hn
    have hlength : nodes.length = (page n.toNat (start pagination) orders).length :=
      hnodes.length_eq
    have hpage : page nodes.length (start pagination) orders =
        page n.toNat (start pagination) orders := by
      apply List.take_eq_take_iff.mpr
      rw [hlength, page, List.length_take]
      omega
    rw [page, List.length_take, List.length_drop] at hlength
    refine ⟨?_, ?_, hsorted, rfl, ?_⟩
    · rw [hpage]
      exact hnodes
    · intro m hm
      obtain rfl := Option.some.inj (hn.symm.trans hm)
      exact hlength
    · rw [exists_mem_drop, decide_eq_true_iff, ← hstart, Option.getD_some]
      dsimp only
      omega

/-- The pages of a walk contain `rest`, as it is sorted, and all count `total`. -/
structure Walked (total : Nat) (rest : List OrderEntity) (pages : List OrdersConnection) : Prop where
  nodes : (pages.flatMap (·.nodes)).Perm rest
  times : (pages.flatMap (·.nodes)).map Entity.createdAt = rest.map Entity.createdAt
  totalCount : ∀ connection ∈ pages, connection.totalCount = total

theorem PageOf.walked {orders : List OrderEntity} {connection : OrdersConnection}
    (h : PageOf pagination orders connection) (horders : Descending Entity.createdAt orders) :
    Walked orders.length (page connection.nodes.length (start pagination) orders) [connection] := by
  have hsection : Descending Entity.createdAt
      (page connection.nodes.length (start pagination) orders) :=
    List.Pairwise.sublist ((List.take_sublist _ _).trans (List.drop_sublist _ _)) horders
  refine ⟨?_, ?_, ?_⟩
  · rw [List.flatMap_singleton]
    exact h.nodes
  · rw [List.flatMap_singleton]
    exact h.sorted.map_eq hsection h.nodes
  · intro c hc
    rw [List.mem_singleton.mp hc]
    exact h.totalCount

theorem Walked.append {total : Nat} {first rest : List OrderEntity}
    {pages more : List OrdersConnection} (h : Walked total first pages)
    (h' : Walked total rest more) : Walked total (first ++ rest) (pages ++ more) := by
  refine ⟨?_, ?_, ?_⟩
  · rw [List.flatMap_append]
    exact h.nodes.append h'.nodes
  · rw [List.flatMap_append, List.map_append, List.map_append, h.times, h'.times]
  · intro c hc
    rcases List.mem_append.mp hc with hc | hc
    · exact h.totalCount c hc
    · exact h'.totalCount c hc

theorem walk_from (hfilter : validateFilters filter = pure ()) {n : Nat} (hn : 1 ≤ n)
    {fuel offset : Nat} (hpos : 0 < fuel) (hfuel : (matching filter rows).length < offset + fuel) :
    (allConnections filter n fuel offset).wp (Prog.unblocked (querying OrderEntity) Answers i)
      (fun pages _ => ∃ ps, pages = some ps ∧ Walked (matching filter rows).length
        ((SelectQueryBuilder.byIds (matching filter rows)).drop offset) ps)
      (fun _ _ => False) rows := by
  have htotal := (SelectQueryBuilder.byIds_perm (matching filter rows)).length_eq
  have horders := SelectQueryBuilder.descending_byIds (matching filter rows)
  induction fuel generalizing offset with
  | zero => omega
  | succ fuel ih =>
    have haccepted : validatePagination (some ⟨some (some n), some (some offset)⟩) = pure () := by
      have hlimit : decide ((n : Int) ≤ 0) = false := decide_eq_false (by omega)
      have hoffset : decide ((offset : Int) < 0) = false := decide_eq_false (by omega)
      simp only [validatePagination, Option.bind_some, Option.any_some, Option.getD_some, hlimit,
        hoffset, Bool.false_eq_true, if_false]
    refine (Prog.wp_bind _ _ _ _ _).mpr (wp_connection hfilter haccepted ?_)
    intro connection hpage
    have hwalked := hpage.walked horders
    have hlength := hpage.length n rfl
    have hstart : start (some ⟨some (some (n : Int)), some (some (offset : Int))⟩) = offset :=
      Int.toNat_natCast offset
    rw [htotal, Int.toNat_natCast, hstart] at hlength
    rw [htotal, hstart] at hwalked
    have hnext : connection.pageInfo.hasNextPage = true ↔
        offset + connection.nodes.length < (matching filter rows).length := by
      rw [hpage.hasNextPage, hstart, ← htotal, exists_mem_drop]
    by_cases hmore : connection.pageInfo.hasNextPage = true
    · rw [if_pos hmore]
      have hlt := hnext.mp hmore
      have hn' : connection.nodes.length = n := by omega
      refine (Prog.wp_bind _ _ _ _ _).mpr
        (Prog.wp_mono (ih (by omega) (by omega)) ?_ (fun _ _ h => h))
      intro pages s hpages
      obtain ⟨ps, rfl, hps⟩ := hpages
      have hall := hwalked.append hps
      rw [hn', page_append] at hall
      exact ⟨connection :: ps, rfl, hall⟩
    · rw [if_neg hmore]
      have hlast : page connection.nodes.length offset
          (SelectQueryBuilder.byIds (matching filter rows)) =
          (SelectQueryBuilder.byIds (matching filter rows)).drop offset := by
        apply List.take_of_length_le
        rw [List.length_drop, htotal]
        have hge := mt hnext.mpr hmore
        omega
      rw [hlast] at hwalked
      exact ⟨[connection], rfl, hwalked⟩

end Connection

theorem nodup_orderRows (orders : AList (fun _ : Uuid => Order))
    (items : AList (fun _ : Uuid => OrderItem)) : (orderRows orders items).Nodup := by
  have hkeys : ((orderRows orders items).map OrderEntity.id).Nodup := by
    rw [orderRows, List.map_map]
    exact orders.nodupKeys
  exact hkeys.of_map

/-- The pages list every order that matches exactly once, the newest first. -/
structure CompleteWalk (filter : Option OrdersFilterInput) (rows : List OrderEntity)
    (pages : List OrdersConnection) : Prop where
  all : ∀ order, order ∈ pages.flatMap (·.nodes) ↔ order ∈ rows ∧ Matches filter order
  once : (pages.flatMap (·.nodes)).Nodup
  newestFirst : Descending Entity.createdAt (pages.flatMap (·.nodes))
  totalCount : ∀ connection ∈ pages, connection.totalCount = (matching filter rows).length

/-- With a filter that is accepted: the walk over the pages ends and is complete,
and every page that can be asked for says whether a matching order comes after it. -/
theorem connection_complete (orders : AList (fun _ : Uuid => Order))
    (items : AList (fun _ : Uuid => OrderItem)) {filter : Option OrdersFilterInput}
    (hfilter : validateFilters filter = pure ()) :
    (∀ n fuel : Nat, 1 ≤ n → (matching filter (orderRows orders items)).length < fuel →
      (allConnections filter n fuel 0).wp (Prog.unblocked (querying OrderEntity) Answers 0)
        (fun pages _ => ∃ ps, pages = some ps ∧ CompleteWalk filter (orderRows orders items) ps)
        (fun _ _ => False) (orderRows orders items)) ∧
      ∀ pagination, validatePagination pagination = pure () →
        (getAllConnection filter pagination).wp (Prog.unblocked (querying OrderEntity) Answers 0)
          (fun connection _ => PageOf pagination
            (SelectQueryBuilder.byIds (matching filter (orderRows orders items))) connection)
          (fun _ _ => False) (orderRows orders items) := by
  have hperm := SelectQueryBuilder.byIds_perm (matching filter (orderRows orders items))
  have hsorted := SelectQueryBuilder.descending_byIds (matching filter (orderRows orders items))
  constructor
  · intro n fuel hn hfuel
    have hpos : 0 < fuel := by omega
    have hzero : (matching filter (orderRows orders items)).length < 0 + fuel := by omega
    refine Prog.wp_mono (walk_from hfilter hn hpos hzero) ?_ (fun _ _ h => h)
    intro pages s hpages
    obtain ⟨ps, hps, hwalked⟩ := hpages
    have hnodes := hwalked.nodes.trans hperm
    refine ⟨ps, hps, ?_, ?_, ?_, hwalked.totalCount⟩
    · intro order
      rw [hnodes.mem_iff, matching, List.mem_filter, decide_eq_true_iff]
    · exact hnodes.nodup_iff.mpr ((nodup_orderRows orders items).filter _)
    · apply Descending.of_keys
      rw [hwalked.times]
      exact hsorted.keys
  · intro pagination hpagination
    exact wp_connection hfilter hpagination (fun _ hpage => hpage)

def twoOrders : AList (fun _ : Uuid => Order) :=
  AList.insert 1 ⟨9, .pending, none, 7, 7, none⟩
    (AList.singleton 2 ⟨9, .processed, none, 7, 8, some 8⟩)

def sinceSeven : Option OrdersFilterInput := some ⟨none, some 7, none⟩

theorem connection_complete_twoOrders :
    (allConnections sinceSeven 1 3 0).wp (Prog.unblocked (querying OrderEntity) Answers 0)
      (fun pages _ => ∃ ps, pages = some ps ∧
        CompleteWalk sinceSeven (orderRows twoOrders ∅) ps)
      (fun _ _ => False) (orderRows twoOrders ∅) :=
  (connection_complete twoOrders ∅ rfl).1 1 3 (by decide) (by decide +kernel)

end OrdersService

end Ecomm
