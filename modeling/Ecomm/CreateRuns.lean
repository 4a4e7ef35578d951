import Ecomm.CreateRules

/-! Runs of any number of `create` calls: every commit balances stock against
order items, and adds one order that nobody else adds. -/

namespace Ecomm

open Concurrent Sql

def creation (s : AppState) (calls : List CreateCall) : Config app CreateResult :=
  ⟨s, fun i => (calls[i]?).map CreateCall.program⟩

def callAt (calls : List CreateCall) (i : Nat) : CreateCall := calls.getD i default

def ordered (calls : List CreateCall) (log : List (Commit schema)) (p : Uuid) : Int :=
  (log.map (fun c => demand (callAt calls c.thread).dto.items p)).sum

structure Sales (calls : List CreateCall) (T₀ : Database) (s : AppState)
    (γ : Nat → Session schema × Sale) : Prop where
  call : ∀ j, (γ j).2.call = callAt calls j
  stock : ∀ p, stock s.store.tables p + ordered calls s.store.log p = stock T₀ p
  sold : ∀ p, sold s.store.tables p = sold T₀ p + ordered calls s.store.log p
  nonneg : (∀ p, 0 ≤ Ecomm.stock T₀ p) →
    ∀ p r, (s.store.tables .products).lookup p = some r → 0 ≤ r.stock
  done : ∀ j o, (γ j).2.done = some o → ∃ row : Order,
    (s.store.tables .orders).lookup o = some row ∧ row.idempotencyKey = (callAt calls j).key
  observed : ∀ j, ∀ e ∈ (γ j).2.observed, (s.store.tables .orders).lookup e.1 = some e.2
  origin : ∀ o row, (s.store.tables .orders).lookup o = some row →
    (T₀ .orders).lookup o = some row ∨ ∃ c ∈ s.store.log, (γ c.thread).2.done = some o
  initial : ∀ o row, (T₀ .orders).lookup o = some row →
    (s.store.tables .orders).lookup o = some row ∧ ∀ j, (γ j).2.done ≠ some o
  logged : ∀ c ∈ s.store.log, ∃ o, (γ c.thread).2.done = some o ∧ orderWritten c.writes = some o
  once : (s.store.log.map (·.thread)).Nodup
  own : ∀ i j o, (γ i).2.done = some o → (γ j).2.done = some o → i = j
  published : ∀ e ∈ s.published, (γ e.1).2.announced = true ∧
    ∃ o, (γ e.1).2.done = some o ∧ e.2.payload.get "orderId" = some (.str (uuidOut o))
  publishedOnce : (s.published.map (·.1)).Nodup

namespace Sales

variable {calls : List CreateCall} {T₀ : Database} {s s' : AppState}
  {γ : Nat → Session schema × Sale} {i : Nat} {g' : Session schema} {x' : Sale}

theorem update_snd {β : Type} (f : Sale → β) (h : f x' = f (γ i).2) (j : Nat) :
    f (Function.update γ i (g', x') j).2 = f (γ j).2 := by
  by_cases hj : j = i
  · subst hj
    simp [h]
  · simp [hj]

theorem observe (h : Sales calls T₀ s γ) (ht : s'.store.tables = s.store.tables)
    (hl : s'.store.log = s.store.log) (hp : s'.published = s.published)
    (hcall : x'.call = (γ i).2.call) (hdone : x'.done = (γ i).2.done)
    (hann : x'.announced = (γ i).2.announced)
    (hobs : ∀ e ∈ x'.observed, (s.store.tables .orders).lookup e.1 = some e.2) :
    Sales calls T₀ s' (Function.update γ i (g', x')) where
  call j := by
    rw [update_snd Sale.call hcall]
    exact h.call j
  stock p := by
    rw [ht, hl]
    exact h.stock p
  sold p := by
    rw [ht, hl]
    exact h.sold p
  nonneg h₀ := by
    rw [ht]
    exact h.nonneg h₀
  done j o hj := by
    rw [update_snd Sale.done hdone] at hj
    rw [ht]
    exact h.done j o hj
  observed j e he := by
    rw [ht]
    by_cases hj : j = i
    · subst hj
      rw [Function.update_self] at he
      exact hobs e he
    · rw [Function.update_of_ne hj] at he
      exact h.observed j e he
  origin o row ho := by
    rw [ht] at ho
    rw [hl]
    simpa only [update_snd Sale.done hdone] using h.origin o row ho
  initial o row ho := by
    rw [ht]
    simpa only [update_snd Sale.done hdone] using h.initial o row ho
  logged c hc := by
    rw [update_snd Sale.done hdone]
    exact h.logged c (hl ▸ hc)
  once := by
    rw [hl]
    exact h.once
  own j k o hj hk := by
    rw [update_snd Sale.done hdone] at hj hk
    exact h.own j k o hj hk
  published e he := by
    rw [update_snd Sale.announced hann, update_snd Sale.done hdone]
    exact h.published e (hp ▸ he)
  publishedOnce := by
    rw [hp]
    exact h.publishedOnce

theorem announce (h : Sales calls T₀ s γ) {m : Published} {o : Uuid}
    (hann : (γ i).2.announced = false) (hdone : (γ i).2.done = some o)
    (hm : m.payload.get "orderId" = some (.str (uuidOut o)))
    (hs : s'.store = s.store) (hp : s'.published = s.published ∨
      s'.published = s.published ++ [(i, m)]) :
    Sales calls T₀ s' (Function.update γ i (g', { (γ i).2 with announced := true })) := by
  have hnew : i ∉ s.published.map (·.1) := by
    intro hi
    obtain ⟨e, he, rfl⟩ := List.mem_map.mp hi
    rw [(h.published e he).1] at hann
    cases hann
  have hall : ∀ e ∈ s'.published, e ∈ s.published ∨ e = (i, m) := by
    intro e he
    rcases hp with hp | hp
    · exact .inl (hp ▸ he)
    · rw [hp] at he
      exact (List.mem_append.mp he).imp_right List.mem_singleton.mp
  have hsame : ∀ j, (Function.update γ i (g', { (γ i).2 with announced := true }) j).2.done =
      (γ j).2.done := fun j => update_snd Sale.done (by rfl) j
  constructor
  case call =>
    intro j
    rw [update_snd Sale.call (by rfl)]
    exact h.call j
  case stock =>
    rw [hs]
    exact h.stock
  case sold =>
    rw [hs]
    exact h.sold
  case nonneg =>
    rw [hs]
    exact h.nonneg
  case done =>
    intro j o' hj
    rw [hsame] at hj
    rw [hs]
    exact h.done j o' hj
  case observed =>
    intro j
    rw [update_snd Sale.observed (by rfl), hs]
    exact h.observed j
  case origin =>
    intro o' row ho
    rw [hs] at ho ⊢
    simpa only [hsame] using h.origin o' row ho
  case initial =>
    intro o' row ho
    rw [hs]
    simpa only [hsame] using h.initial o' row ho
  case logged =>
    intro c hc
    rw [hsame]
    exact h.logged c (hs ▸ hc)
  case once =>
    rw [hs]
    exact h.once
  case own =>
    intro j k o' hj hk
    rw [hsame] at hj hk
    exact h.own j k o' hj hk
  case published =>
    intro e he
    rw [hsame]
    rcases hall e he with he | rfl
    · obtain ⟨ha, hd⟩ := h.published e he
      refine ⟨?_, hd⟩
      by_cases hj : e.1 = i
      · rw [hj, Function.update_self]
      · rw [Function.update_of_ne hj]
        exact ha
    · exact ⟨by simp, o, hdone, hm⟩
  case publishedOnce =>
    rcases hp with hp | hp
    · rw [hp]
      exact h.publishedOnce
    · rw [hp, List.map_append]
      refine h.publishedOnce.append (by simp) ?_
      simpa using hnew

theorem ordered_append (log : List (Commit schema)) (c : Commit schema) (p : Uuid) :
    ordered calls (log ++ [c]) p =
      ordered calls log p + demand (callAt calls c.thread).dto.items p := by
  simp [ordered]

end Sales

section Commit

variable {key : Option String} {o : Uuid} {taken items : Uuid → Int} {g : Session schema}
  {s : AppState} {i : Nat}

theorem Account.stock_commit (ha : Account key o taken items g) (hm : g.Matches s.store i)
    (p : Uuid) :
    stock (s.store.tables.replay g.writes) p = stock s.store.tables p - taken p := by
  unfold stock
  rw [← Store.view_some (hm.tx.trans ha.isOpen), hm.view_lookup]
  cases hb : g.base .products p with
  | none =>
    have hs : g.seen .products p = none := by
      by_contra hne
      exact (hm.both _ _).mp hne hb
    rw [hs, ha.untouched p hb, Option.getD_none, sub_zero]
  | some b =>
    obtain ⟨r, r', rfl, hseen, hstock, _⟩ := ha.product p b hb
    rw [hseen, hm.base _ _ _ hb]
    exact hstock

theorem Account.sold_commit (ha : Account key o taken items g) (hm : g.Matches s.store i)
    (p : Uuid) :
    Ecomm.sold (s.store.tables.replay g.writes) p = Ecomm.sold s.store.tables p + items p := by
  have hfresh : FreshIn Table.orderItems s.store.tables g.writes := by
    refine FreshIn.of_nodup ?_ ha.nodup
    intro w hw hwt
    obtain ⟨hsome, hbase⟩ := ha.fresh w hw hwt
    obtain ⟨b, hb⟩ := Option.ne_none_iff_exists'.mp hbase
    obtain ⟨rfl, _⟩ := ha.item _ _ hb
    exact ⟨hsome, hm.base _ _ _ hb⟩
  unfold Ecomm.sold
  rw [tally_replay hfresh, ha.sold p, add_comm]

end Commit

namespace Sales

variable {calls : List CreateCall} {T₀ : Database} {s s' : AppState}
  {γ : Nat → Session schema × Sale} {i : Nat} {g' : Session schema} {x' : Sale}

theorem commit (h : Sales calls T₀ s γ) (hm : (γ i).1.Matches s.store i) {o : Uuid}
    (hdone : (γ i).2.done = none)
    (ha : Account (callAt calls i).key o (demand (callAt calls i).dto.items)
      (demand (callAt calls i).dto.items) (γ i).1)
    (ht : s'.store.tables = s.store.tables.replay (γ i).1.writes)
    (hl : s'.store.log = s.store.log ++ [⟨i, (γ i).1.writes⟩])
    (hp : s'.published = s.published) :
    Sales calls T₀ s' (Function.update γ i (g', { (γ i).2 with done := some o })) := by
  have hrow : ∀ t id, (s'.store.tables t).lookup id =
      ((γ i).1.seen t id).getD ((s.store.tables t).lookup id) := by
    intro t id
    rw [ht, ← hm.view_lookup, Store.view_some (hm.tx.trans ha.isOpen)]
  have hnew : (s.store.tables .orders).lookup o = none := hm.base _ _ _ ha.isNew
  have hkept : ∀ id row, (s.store.tables .orders).lookup id = some row →
      (s'.store.tables .orders).lookup id = some row := by
    intro id row hid
    rw [ht, Tables.lookup_replay_other, hid]
    rintro w hw ⟨hwt, rfl⟩
    rw [ha.orders w hw hwt, hnew] at hid
    cases hid
  have hother : ∀ j, j ≠ i → Function.update γ i (g', { (γ i).2 with done := some o }) j = γ j :=
    fun j hj => Function.update_of_ne hj _ _
  have hself : Function.update γ i (g', { (γ i).2 with done := some o }) i =
      (g', { (γ i).2 with done := some o }) := Function.update_self _ _ _
  have hnotmine : ∀ j, (γ j).2.done = some o → False := by
    intro j hj
    obtain ⟨row, hrow', _⟩ := h.done j o hj
    rw [hnew] at hrow'
    cases hrow'
  constructor
  case call =>
    intro j
    rw [update_snd Sale.call (by rfl)]
    exact h.call j
  case stock =>
    intro p
    rw [hl, ordered_append, ← h.stock p]
    have hstock : Ecomm.stock s'.store.tables p =
        Ecomm.stock s.store.tables p - demand (callAt calls i).dto.items p := by
      rw [ht, ha.stock_commit hm]
    rw [hstock]
    ring
  case sold =>
    intro p
    rw [hl, ordered_append, ← add_assoc, ← h.sold p]
    rw [ht, ha.sold_commit hm]
  case nonneg =>
    intro h₀ p r hr
    rw [hrow] at hr
    cases hb : (γ i).1.base .products p with
    | none =>
      have hs : (γ i).1.seen .products p = none := by
        by_contra hne
        exact (hm.both _ _).mp hne hb
      rw [hs] at hr
      exact h.nonneg h₀ p r hr
    | some b =>
      obtain ⟨q, q', rfl, hseen, _, hpos⟩ := ha.product p b hb
      rw [hseen, Option.getD_some] at hr
      obtain rfl := Option.some.inj hr
      exact hpos (h.nonneg h₀ p q (hm.base _ _ _ hb))
  case done =>
    intro j o' hj
    by_cases hji : j = i
    · subst hji
      rw [hself] at hj
      obtain rfl := Option.some.inj hj
      obtain ⟨row, hseen, hkey⟩ := ha.order
      exact ⟨row, by rw [hrow, hseen, Option.getD_some], hkey⟩
    · rw [hother j hji] at hj
      obtain ⟨row, hlook, hkey⟩ := h.done j o' hj
      exact ⟨row, hkept _ _ hlook, hkey⟩
  case observed =>
    intro j e he
    rw [update_snd Sale.observed (by rfl)] at he
    exact hkept _ _ (h.observed j e he)
  case origin =>
    intro o' row ho
    by_cases hoo : o' = o
    · subst hoo
      refine .inr ⟨⟨i, (γ i).1.writes⟩, by simp [hl], ?_⟩
      rw [hself]
    · rw [ht, Tables.lookup_replay_other] at ho
      · rcases h.origin o' row ho with hinit | ⟨c, hc, hd⟩
        · exact .inl hinit
        · refine .inr ⟨c, by simp [hl, hc], ?_⟩
          rw [hother _ (fun hci => by rw [hci, hdone] at hd; cases hd)]
          exact hd
      · rintro w hw ⟨hwt, hid⟩
        exact hoo (hid.symm.trans (ha.orders w hw hwt))
  case initial =>
    intro o' row ho
    obtain ⟨hlook, hnever⟩ := h.initial o' row ho
    refine ⟨hkept _ _ hlook, ?_⟩
    intro j hj
    by_cases hji : j = i
    · subst hji
      rw [hself] at hj
      obtain rfl := Option.some.inj hj
      rw [hnew] at hlook
      cases hlook
    · rw [hother j hji] at hj
      exact hnever j hj
  case logged =>
    intro c hc
    rw [hl] at hc
    rcases List.mem_append.mp hc with hc | hc
    · obtain ⟨o', hd, hw⟩ := h.logged c hc
      refine ⟨o', ?_, hw⟩
      rw [hother _ (fun hci => by rw [hci, hdone] at hd; cases hd)]
      exact hd
    · obtain rfl := List.mem_singleton.mp hc
      refine ⟨o, ?_, orderWritten_account ha⟩
      rw [hself]
  case once =>
    rw [hl, List.map_append]
    refine h.once.append (by simp) ?_
    intro j hj hmem
    obtain rfl : j = i := by simpa using hmem
    obtain ⟨c, hc, rfl⟩ := List.mem_map.mp hj
    obtain ⟨o', hd, _⟩ := h.logged c hc
    rw [hdone] at hd
    cases hd
  case own =>
    intro j k o' hj hk
    by_cases hji : j = i <;> by_cases hki : k = i
    · rw [hji, hki]
    · subst hji
      rw [hself] at hj
      obtain rfl := Option.some.inj hj
      rw [hother k hki] at hk
      exact (hnotmine k hk).elim
    · subst hki
      rw [hself] at hk
      obtain rfl := Option.some.inj hk
      rw [hother j hji] at hj
      exact (hnotmine j hj).elim
    · rw [hother j hji] at hj
      rw [hother k hki] at hk
      exact h.own j k o' hj hk
  case published =>
    intro e he
    obtain ⟨hann, o', ho', hpay⟩ := h.published e (hp ▸ he)
    have hei : e.1 ≠ i := by
      rintro rfl
      rw [hdone] at ho'
      cases ho'
    rw [hother _ hei]
    exact ⟨hann, o', ho', hpay⟩
  case publishedOnce =>
    rw [hp]
    exact h.publishedOnce

end Sales

/-- The sessions of a run from a quiet state, and the ledger that every step keeps. -/
theorem createRules_sound (calls : List CreateCall) (T₀ : Database) :
    createRules.protocol.Sound app Always (Rules.Inv (Sales calls T₀)) := by
  refine Rules.sound (fun ha => ha) ?_
  intro s s' γ i ch o r g' hinv _ ha he hchange _ _
  refine ⟨_, rfl, ?_⟩
  have h := hinv.rest
  have hsame : ∀ x', commits (γ i).1 o r = none → s'.published = s.published →
      x'.call = (γ i).2.call → x'.done = (γ i).2.done → x'.announced = (γ i).2.announced →
      (∀ e ∈ x'.observed, (s.store.tables .orders).lookup e.1 = some e.2) →
      Sales calls T₀ s' (Function.update γ i (g', x')) := by
    intro x' hc hp hcall hdone hann hobs
    rw [hc] at hchange
    exact h.observe (by simpa using hchange.tables) (by simpa using hchange.log) hp hcall hdone
      hann hobs
  have hobs := h.observed i
  cases o with
  | sql q =>
    have hp : s'.published = s.published := AppState.exec_published he (by simp)
    cases q with
    | commitTransaction =>
      obtain ⟨hdone, o, hacc⟩ := ha
      rw [h.call i] at hacc
      cases r with
      | error e => exact hsame _ rfl hp rfl rfl rfl hobs
      | ok a =>
        have hc : commits (γ i).1 (.sql .commitTransaction) (.ok a) = some (γ i).1.writes :=
          commits_open hacc.isOpen a
        rw [hc] at hchange
        have hnext : createNext (γ i).2 (γ i).1 (.sql .commitTransaction) (.ok a) =
            { (γ i).2 with done := some o } := by
          have hwritten : createNext (γ i).2 (γ i).1 (.sql .commitTransaction) (.ok a) =
            { (γ i).2 with done := orderWritten (γ i).1.writes } := rfl
          rw [hwritten, orderWritten_account hacc]
        rw [hnext]
        exact h.commit (hinv.session i) hdone hacc hchange.tables hchange.log hp
    | startTransaction | rollbackTransaction =>
      cases r <;> exact hsame _ rfl hp rfl rfl rfl hobs
    | stmt q =>
      by_cases hq : (γ i).1.tx ≠ none ∨ ∀ cond, q ≠ .select .orders cond
      · have hnext : createNext (γ i).2 (γ i).1 (.sql (.stmt q)) r = (γ i).2 :=
          createNext_stmt hq r
        rw [hnext]
        exact hsame _ (by cases r <;> rfl) hp rfl rfl rfl hobs
      · simp only [ne_eq, not_or, not_not, not_forall] at hq
        obtain ⟨htx, cond, rfl⟩ := hq
        cases r with
        | error e => exact hsame _ rfl hp rfl rfl rfl hobs
        | ok rows =>
          have hnext : createNext (γ i).2 (γ i).1 (.sql (.stmt (.select .orders cond)))
              (.ok rows) = { (γ i).2 with
                observed := (γ i).2.observed ++ (show List (Uuid × Order) from rows) } := by
            simp [createNext, htx]
          rw [hnext]
          refine hsame _ rfl hp rfl rfl rfl ?_
          intro e hmem
          rcases List.mem_append.mp hmem with hmem | hmem
          · exact hobs e hmem
          · obtain ⟨a, store, hexec, hr, _⟩ := AppState.exec_sql he
            cases a with
            | error e => cases hr
            | ok a =>
              cases hr
              have hview := ((Store.exec_select hexec e).mp hmem).1
              rwa [Store.view_none ((hinv.session i).tx.trans htx)] at hview
  | sendToQueue m =>
    obtain ⟨hann, o, hdone, hm⟩ := ha
    have hp : s'.published = s.published ∨ s'.published = s.published ++ [(i, m)] := by
      rcases AppState.exec_sendToQueue he with ⟨_, rfl⟩ | ⟨_, rfl⟩ | ⟨_, rfl⟩
      · exact .inr rfl
      · exact .inr rfl
      · exact .inl rfl
    have hnext : Sales calls T₀ s' (Function.update γ i (g', { (γ i).2 with announced := true })) :=
      h.announce hann hdone hm (AppState.exec_sendToQueue_store he) hp
    cases r <;> exact hnext
  | channelReady | randomUUID | dateNow =>
    have hp : s'.published = s.published := AppState.exec_published he (by simp)
    cases r <;> exact hsame _ rfl hp rfl rfl rfl hobs
  | settle how | publishStatusChanged event => exact ha.elim

theorem Sales.begin {s : AppState} (hs : s.Quiet) (calls : List CreateCall) :
    Sales calls s.store.tables s (fun i => (.closed, Sale.begin (callAt calls i))) where
  call j := rfl
  stock p := by simp [ordered, hs.log]
  sold p := by simp [ordered, hs.log]
  nonneg h₀ p r hr := by simpa [Ecomm.stock, hr] using h₀ p
  done j o hj := by cases hj
  observed j e he := by cases he
  origin o row ho := .inl ho
  initial o row ho := ⟨ho, fun j hj => by cases hj⟩
  logged c hc := by simp [hs.log] at hc
  once := by simp [hs.log]
  own i j o hi := by cases hi
  published e he := by simp [hs.published] at he
  publishedOnce := by simp [hs.published]

theorem creation_begin {s : AppState} (hs : s.Quiet) (calls : List CreateCall) :
    Follows createRules.protocol (Rules.Inv (Sales calls s.store.tables))
      (fun i => Answered (callAt calls i)) (fun _ _ _ => True) (creation s calls)
      (fun i => (.closed, Sale.begin (callAt calls i))) where
  inv := ⟨hs.coherent, hs.session, .begin hs calls⟩
  thread i p hp := by
    obtain ⟨call, hcall, rfl⟩ := Option.map_eq_some_iff.mp hp
    have hat : callAt calls i = call := by simp [callAt, List.getD, hcall]
    subst hat
    exact wp_create _

/-- In every state that the calls reach, the ledger is kept and every answer
given so far is the answer of its call. -/
theorem creation_run {s : AppState} (hs : s.Quiet) {calls : List CreateCall}
    {es : List (Nat × AppChoice)} {c : Config app CreateResult}
    (h : (creation s calls).run es = some c) :
    ∃ γ, Follows createRules.protocol (Rules.Inv (Sales calls s.store.tables))
      (fun i => Answered (callAt calls i)) (fun _ _ _ => True) c γ := by
  obtain ⟨γ, hγ, _⟩ := (createRules_sound calls s.store.tables).run (creation_begin hs calls)
    (Config.meets_always _ _) h
  exact ⟨γ, hγ⟩

end Ecomm
