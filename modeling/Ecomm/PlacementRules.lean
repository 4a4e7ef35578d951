import Ecomm.CreateRules

/-! What a call of `create` leaves behind when it throws, and whether the order
that it has committed was announced. -/

namespace Ecomm

open Concurrent Sql

/-- `createdAt.toISOString()` returns. -/
def Printable (row : Order) : Prop := (toISOString row.createdAt).isSome = true

/-- The step is no announcement that throws: the channel is not closed, and the
order that was committed last has a date that can be printed. -/
def Sends (e : Event app) : Prop :=
  match e.op with
  | .sendToQueue _ => e.choice.send ≠ .closed
  | .randomUUID => ∀ c ∈ e.state.store.log.getLast?, ∀ w ∈ c.writes, w.table = .orders →
    ∀ row : Order, (e.state.store.tables .orders).lookup w.id = some row → Printable row
  | _ => True

/-- The message is neither handed to the broker nor is there an error. -/
def Drops (e : Event app) : Prop :=
  e.choice.send = .refused ∧ ∃ m, e.op = .sendToQueue m

/-- What a call knows of itself: the order that it committed, the committed
orders that it read, and what became of its messages. -/
structure Placement where
  done : Option (Uuid × Order)
  observed : List (Uuid × Order)
  handed : List Published
  skipped : Prop
  met : Prop

def Placement.begin : Placement := ⟨none, [], [], False, True⟩

structure Opens (key : Option String) (g : Session schema) (o : Uuid) (row : Order) : Prop where
  isOpen : g.tx = some ⟨g.writes, false⟩
  isNew : g.base .orders o = some none
  seen : g.seen .orders o = some (some row)
  hasKey : row.idempotencyKey = key
  orders : ∀ w ∈ g.writes, w.table = .orders → w.id = o
  written : ∃ w ∈ g.writes, w.table = .orders

theorem Account.opens {key : Option String} {o : Uuid} {taken items : Uuid → Int}
    {g : Session schema} (h : Account key o taken items g) : ∃ row, Opens key g o row := by
  obtain ⟨row, hrow, hkey⟩ := h.order
  exact ⟨row, h.isOpen, h.isNew, hrow, hkey, h.orders, h.written⟩

section Rules

variable (key : Option String)

def placementAllowed (x : Placement) (g : Session schema) : AppOp → Prop
  | .sql .commitTransaction => x.done = none ∧ ∃ o row, Opens key g o row
  | .sql (.stmt q) => q.reads = true ∨ g.tx ≠ none
  | .settle _ | .publishStatusChanged _ => False
  | _ => True

def placementNext (x : Placement) (g : Session schema) :
    (o : AppOp) → Except Thrown o.Ans → Placement → Prop
  | .sql .commitTransaction, .ok _, x' =>
    ∃ o row, Opens key g o row ∧ x' = { x with done := some (o, row) }
  | .sql (.stmt (.select .orders _)), .ok rows, x' =>
    x' = { x with observed := x.observed ++
      (if g.tx.isNone then (show List (Uuid × Order) from rows) else []) }
  | .channelReady, .ok ready, x' => x' = { x with skipped := x.skipped ∨ ready = false }
  | .sendToQueue m, .ok accepted, x' => x' = { x with handed := x.handed ++ [m] } ∨
    accepted = false ∧ x' = { x with skipped := True }
  | .sendToQueue _, .error _, x' => x' = { x with met := False }
  | .randomUUID, .ok _, x' => ∃ b : Prop, x' = { x with met := x.met ∧ b } ∧
    ∀ e, x.done = some e → (b ↔ Printable e.2)
  | .channelReady, .error _, _ | .randomUUID, .error _, _ => False
  | _, _, x' => x' = x

def placements : Rules Placement where
  allowed := placementAllowed key
  next x g o r _ x' := placementNext key x g o r x'

end Rules

/-- The record of a call that started on the tables `T` agrees with its steps. -/
structure Placing (key : Option String) (T : Database) (P : List (Nat × Published))
    (ready : Bool) (i : Nat) (s : AppState × List (Event app))
    (γ : Nat → Session schema × Placement) : Prop where
  unchanged : (γ i).2.done = none → s.1.store.tables = T
  committed : ∀ o row, (γ i).2.done = some (o, row) → (T .orders).lookup o = none ∧
    row.idempotencyKey = key ∧ (∀ id, (s.1.store.tables .orders).lookup id =
      if id = o then some row else (T .orders).lookup id) ∧
    ∃ c, s.1.store.log.getLast? = some c ∧
      (∀ w ∈ c.writes, w.table = .orders → w.id = o) ∧ ∃ w ∈ c.writes, w.table = .orders
  observed : ∀ e ∈ (γ i).2.observed, (s.1.store.tables .orders).lookup e.1 = some e.2
  published : s.1.published = P ++ (γ i).2.handed.map (fun m => (i, m))
  channel : s.1.channelReady = ready
  skipped : (γ i).2.skipped → ready = false ∨ ∃ e ∈ s.2, Drops e
  met : (γ i).2.met ↔ ∀ e ∈ s.2, Sends e

namespace Placing

variable {key : Option String} {T : Database} {P : List (Nat × Published)} {ready : Bool} {i : Nat}
  {s s' : AppState} {past : List (Event app)} {γ : Nat → Session schema × Placement}
  {g' : Session schema} {x' : Placement} {e : Event app}

theorem frame (h : Placing key T P ready i (s, past) γ)
    (ht : s'.store.tables = s.store.tables) (hl : s'.store.log = s.store.log)
    (hr : s'.channelReady = s.channelReady) (hdone : x'.done = (γ i).2.done)
    (hobserved : ∀ e ∈ x'.observed, (s.store.tables .orders).lookup e.1 = some e.2)
    (hpublished : s'.published = P ++ x'.handed.map (fun m => (i, m)))
    (hskipped : x'.skipped → ready = false ∨ ∃ d ∈ past ++ [e], Drops d)
    (hmet : x'.met ↔ (γ i).2.met ∧ Sends e) :
    Placing key T P ready i (s', past ++ [e]) (Function.update γ i (g', x')) := by
  constructor
  case unchanged =>
    rw [Function.update_self, hdone, ht]
    exact h.unchanged
  case committed =>
    rw [Function.update_self, hdone, ht, hl]
    exact h.committed
  case observed =>
    rw [Function.update_self, ht]
    exact hobserved
  case published =>
    rw [Function.update_self]
    exact hpublished
  case channel => exact hr.trans h.channel
  case skipped =>
    rw [Function.update_self]
    exact hskipped
  case met =>
    rw [Function.update_self, hmet, h.met]
    simp [or_imp, forall_and]

theorem skipped_more (h : Placing key T P ready i (s, past) γ) (hskip : (γ i).2.skipped) :
    ready = false ∨ ∃ d ∈ past ++ [e], Drops d := by
  rcases h.skipped hskip with hready | ⟨d, hd, hsend⟩
  · exact .inl hready
  · exact .inr ⟨d, List.mem_append_left _ hd, hsend⟩

theorem handOver (h : Placing key T P ready i (s, past) γ) (m : Published) :
    (s.handOver i m).published = P ++ ((γ i).2.handed ++ [m]).map (fun m => (i, m)) := by
  have hp : s.published = P ++ (γ i).2.handed.map (fun m => (i, m)) := h.published
  simp [AppState.handOver, hp]

theorem stay (h : Placing key T P ready i (s, past) γ)
    (ht : s'.store.tables = s.store.tables) (hl : s'.store.log = s.store.log)
    (hr : s'.channelReady = s.channelReady) (hp : s'.published = s.published)
    (he : Sends e) :
    Placing key T P ready i (s', past ++ [e]) (Function.update γ i (g', (γ i).2)) := by
  exact h.frame ht hl hr rfl h.observed (hp.trans h.published) h.skipped_more (by simp [he])

theorem commit (h : Placing key T P ready i (s, past) γ) (hm : (γ i).1.Matches s.store i)
    (hdone : (γ i).2.done = none) {o : Uuid} {row : Order} (ho : Opens key (γ i).1 o row)
    (ht : s'.store.tables = s.store.tables.replay (γ i).1.writes)
    (hl : s'.store.log = s.store.log ++ [⟨i, (γ i).1.writes⟩])
    (hr : s'.channelReady = s.channelReady) (hp : s'.published = s.published)
    (he : Sends e) : Placing key T P ready i (s', past ++ [e])
      (Function.update γ i (g', { (γ i).2 with done := some (o, row) })) := by
  have hsame : s.store.tables = T := h.unchanged hdone
  have hview : ∀ id, (s'.store.tables .orders).lookup id =
      ((γ i).1.seen .orders id).getD ((s.store.tables .orders).lookup id) := by
    intro id
    rw [ht, ← hm.view_lookup, Store.view_some (hm.tx.trans ho.isOpen)]
  have hnew : (T .orders).lookup o = none := by
    rw [← hsame]
    exact hm.base _ _ _ ho.isNew
  have horders : ∀ id, (s'.store.tables .orders).lookup id =
      if id = o then some row else (T .orders).lookup id := by
    intro id
    by_cases hid : id = o
    · rw [if_pos hid, hid, hview, ho.seen]
      rfl
    · rw [if_neg hid, ht, Tables.lookup_replay_other, hsame]
      intro w hw hat
      exact hid (hat.2.symm.trans (ho.orders w hw hat.1))
  constructor
  case unchanged =>
    rw [Function.update_self]
    intro hnone
    cases hnone
  case committed =>
    rw [Function.update_self]
    intro o' row' heq
    obtain ⟨rfl, rfl⟩ := Prod.mk.inj (Option.some.inj heq)
    refine ⟨hnew, ho.hasKey, horders, ⟨i, (γ i).1.writes⟩, ?_, ho.orders, ho.written⟩
    simp [hl]
  case observed =>
    rw [Function.update_self]
    intro d hd
    have hold := h.observed d hd
    rw [horders, if_neg, ← hsame]
    · exact hold
    · intro hid
      have hnone : (s.store.tables .orders).lookup d.1 = none := by
        rw [hid, hsame]
        exact hnew
      rw [hnone] at hold
      cases hold
  case published =>
    rw [Function.update_self]
    exact hp.trans h.published
  case channel => exact hr.trans h.channel
  case skipped =>
    rw [Function.update_self]
    exact h.skipped_more
  case met =>
    rw [Function.update_self]
    refine h.met.trans ?_
    simp [or_imp, forall_and, he]

end Placing

/-- The orders that the last commit wrote are the one that the call committed. -/
theorem sends_randomUUID {key : Option String} {T : Database} {P : List (Nat × Published)}
    {ready : Bool} {i : Nat} {s : AppState} {past : List (Event app)}
    {γ : Nat → Session schema × Placement} (h : Placing key T P ready i (s, past) γ) {o : Uuid}
    {row : Order} (hdone : (γ i).2.done = some (o, row)) (ch : AppChoice) :
    Printable row ↔ Sends ⟨i, s, ch, .randomUUID⟩ := by
  obtain ⟨_, _, horders, c, hc, hids, w, hw, ht⟩ := h.committed o row hdone
  have hrow : (s.store.tables .orders).lookup o = some row := by
    rw [horders, if_pos rfl]
  constructor
  · intro hprint c' hc' v hv hvt row' hrow'
    obtain rfl := Option.some.inj (hc.symm.trans hc')
    rw [hids v hv hvt, hrow] at hrow'
    obtain rfl := Option.some.inj hrow'
    exact hprint
  · intro hann
    refine hann c hc w hw ht row ?_
    rw [hids w hw ht]
    exact hrow

theorem placements_sound (key : Option String) (T : Database) (P : List (Nat × Published))
    (ready : Bool) (i : Nat) : (placements key).protocol.Sound (recording app) (fun _ j => j = i)
      (fun s γ => Rules.Inv (fun t δ => Placing key T P ready i (t, s.2) δ) s.1 γ) := by
  refine Rules.sound_recording (fun ha => ha) ?_
  intro s s' past γ j ch o r g' hinv hj ha he hchange _ _
  subst hj
  have h := hinv.rest
  cases o with
  | sql q =>
    have hp : s'.published = s.published := AppState.exec_published he (by simp)
    have hr : s'.channelReady = s.channelReady := by
      obtain ⟨_, _, _, _, rfl⟩ := AppState.exec_sql he
      rfl
    have hquiet : commits (γ j).1 (.sql q) r = none →
        Placing key T P ready j (s', past ++ [⟨j, s, ch, .sql q⟩])
          (Function.update γ j (g', (γ j).2)) := by
      intro hc
      rw [hc] at hchange
      exact h.stay (by simpa using hchange.tables) (by simpa using hchange.log) hr hp trivial
    cases q with
    | startTransaction | rollbackTransaction => cases r <;> exact ⟨_, rfl, hquiet rfl⟩
    | commitTransaction =>
      cases r with
      | error e => exact ⟨_, rfl, hquiet rfl⟩
      | ok u =>
        obtain ⟨hdone, o, row, ho⟩ := ha
        have hc : commits (γ j).1 (.sql .commitTransaction) (.ok u) = some (γ j).1.writes :=
          commits_open ho.isOpen u
        rw [hc] at hchange
        exact ⟨_, ⟨o, row, ho, rfl⟩, h.commit (hinv.session j) hdone ho hchange.tables
          hchange.log hr hp trivial⟩
    | stmt q =>
      have hnone : commits (γ j).1 (.sql (.stmt q)) r = none := by cases r <;> rfl
      cases q with
      | selectForUpdate | insert | update | delete | malformed =>
        cases r <;> exact ⟨_, rfl, hquiet hnone⟩
      | select t cond =>
        cases t with
        | users | products | orderItems | processedMessages =>
          cases r <;> exact ⟨_, rfl, hquiet hnone⟩
        | orders =>
          cases r with
          | error e => exact ⟨_, rfl, hquiet hnone⟩
          | ok rows =>
            refine ⟨_, rfl, ?_⟩
            rw [hnone] at hchange
            refine h.frame (by simpa using hchange.tables) (by simpa using hchange.log) hr rfl ?_
              (hp.trans h.published) h.skipped_more ?_
            · intro d hd
              rcases List.mem_append.mp hd with hd | hd
              · exact h.observed d hd
              · by_cases htx : (γ j).1.tx = none
                · rw [htx] at hd
                  obtain ⟨a, store, hexec, hr', _⟩ := AppState.exec_sql he
                  cases a with
                  | error e => cases hr'
                  | ok a =>
                    cases hr'
                    have hview := ((Store.exec_select hexec d).mp hd).1
                    rwa [Store.view_none ((hinv.session j).tx.trans htx)] at hview
                · obtain ⟨x, hx⟩ := Option.ne_none_iff_exists'.mp htx
                  rw [hx] at hd
                  cases hd
            · simp [Sends]
  | channelReady =>
    obtain ⟨rfl, rfl⟩ := Prod.mk.inj (Option.some.inj he)
    refine ⟨_, rfl, h.frame rfl rfl rfl rfl h.observed h.published ?_ (by simp [Sends])⟩
    rintro (hskip | hready)
    · exact h.skipped_more hskip
    · exact .inl (h.channel.symm.trans hready)
  | sendToQueue m =>
    have hstore := AppState.exec_sendToQueue_store he
    cases hsend : ch.send with
    | accepted =>
      simp only [AppState.exec, hsend, Option.some.injEq, Prod.mk.injEq] at he
      obtain ⟨rfl, rfl⟩ := he
      refine ⟨_, .inl rfl, h.frame rfl rfl rfl rfl h.observed (h.handOver m)
        h.skipped_more (by simp [Sends, hsend])⟩
    | buffered =>
      simp only [AppState.exec, hsend, Option.some.injEq, Prod.mk.injEq] at he
      obtain ⟨rfl, rfl⟩ := he
      refine ⟨_, .inl rfl, h.frame rfl rfl rfl rfl h.observed (h.handOver m)
        h.skipped_more (by simp [Sends, hsend])⟩
    | refused =>
      simp only [AppState.exec, hsend, Option.some.injEq, Prod.mk.injEq] at he
      obtain ⟨rfl, rfl⟩ := he
      refine ⟨_, .inr ⟨rfl, rfl⟩, h.frame rfl rfl rfl rfl h.observed h.published ?_
        (by simp [Sends, hsend])⟩
      exact fun _ => .inr ⟨_, List.mem_append_right _ List.mem_cons_self, hsend, m, rfl⟩
    | closed =>
      simp only [AppState.exec, hsend, Option.some.injEq, Prod.mk.injEq] at he
      obtain ⟨rfl, rfl⟩ := he
      exact ⟨_, rfl, h.frame rfl rfl rfl rfl h.observed h.published h.skipped_more
        (by simp [Sends, hsend])⟩
  | randomUUID =>
    obtain ⟨rfl, rfl⟩ := Prod.mk.inj (Option.some.inj he)
    refine ⟨_, ⟨Sends ⟨j, s, ch, .randomUUID⟩, rfl, ?_⟩,
      h.frame rfl rfl rfl rfl h.observed h.published h.skipped_more Iff.rfl⟩
    rintro ⟨o, row⟩ hdone
    exact (sends_randomUUID h hdone ch).symm
  | dateNow =>
    obtain ⟨rfl, rfl⟩ := Prod.mk.inj (Option.some.inj he)
    exact ⟨_, rfl, h.stay rfl rfl rfl rfl trivial⟩
  | settle how | publishStatusChanged event => exact ha.elim

def OrderCreated (o : Uuid) (m : Published) : Prop :=
  m.queue = "orders.process" ∧ m.payload.get "eventName" = some (.str "order.created") ∧
    m.payload.get "orderId" = some (.str (uuidOut o)) ∧ m.payload.get "attempt" = some (.num 0)

def Placement.Open (x : Placement) : Prop := x.done = none ∧ x.met

def Placement.Found (x : Placement) (key : Option String) (a : OrderEntity) : Prop :=
  (a.id, a.row) ∈ x.observed ∧ ∃ k, truthy key = some k ∧ a.row.idempotencyKey = some k

structure Placement.Returned (x : Placement) (key : Option String) (a : CreateResult) : Prop where
  met : x.met
  duplicate : a.wasDuplicate = true → x.done = none ∧ x.Found key a.order
  created : a.wasDuplicate = false → (∃ row, x.done = some (a.order.id, row)) ∧
    (x.skipped ∨ ∃ m ∈ x.handed, OrderCreated a.order.id m)

/-- When the call throws, it has committed an order only if an announcement failed. -/
def Placement.Thrown (x : Placement) : Prop := x.Open ∨ (x.done ≠ none ∧ ¬ x.met)

section Calls

variable {key : Option String} {x : Placement} {g : Session schema}

theorem place_silent (hg : g.tx ≠ none) (q : Stmt schema) :
    (placements key).Silent x g (.sql (.stmt q)) := by
  refine ⟨.inr hg, ?_⟩
  intro r g' x' hx
  obtain ⟨y, hy⟩ := Option.ne_none_iff_exists'.mp hg
  cases q with
  | selectForUpdate | insert | update | delete | malformed => cases r <;> exact hx
  | select t cond =>
    cases t with
    | users | products | orderItems | processedMessages => cases r <;> exact hx
    | orders =>
      cases r with
      | error e => exact hx
      | ok rows => simpa [placements, placementNext, hy] using hx

theorem place_select {t : Table} (ht : t ≠ .orders) (cond : Uuid → t.Row → Bool) :
    (placements key).Silent x g (.sql (.stmt (.select t cond))) := by
  refine ⟨.inl rfl, ?_⟩
  intro r g' x' hx
  cases t with
  | orders => exact absurd rfl ht
  | users | products | orderItems | processedMessages => cases r <;> exact hx

theorem place_findByKey (hg : g.tx = none) (hx : x.Open) :
    (findByKey key).wp (placements key).protocol
      (fun a g' => g'.1 = g ∧ g'.2.Open ∧ ∀ e, a = some e → g'.2.Found key e)
      (fun _ g' => g'.2.Open) (g, x) := by
  unfold findByKey
  split
  · next k hk =>
    refine (Prog.wp_bind _ _ _ _ _).mpr ((Prog.wp_bind _ _ _ _ _).mpr ?_)
    refine Rules.wp_sql trivial (.inl rfl) ?_ ?_
    · intro rows g' x' hn hx'
      have hrows : x' = { x with
          observed := x.observed ++ (show List (Uuid × Order) from rows) } := by
        simpa [placements, placementNext, hg] using hx'
      subst hrows
      cases hn with
      | select _ _ _ hanswers =>
        cases rows with
        | nil => exact ⟨rfl, hx, by simp⟩
        | cons row rows =>
          refine (Prog.wp_bind _ _ _ _ _).mpr (Rules.wp_find (place_select (by simp) _) ?_
            (fun _ => hx))
          intro items _
          refine ⟨rfl, hx, ?_⟩
          intro e he
          obtain rfl := Option.some.inj he
          have hkey := hanswers.meets row List.mem_cons_self
          exact ⟨List.mem_append_right _ List.mem_cons_self, k, hk, by simpa using hkey⟩
    · intro e g' x' hn hx'
      have hsame : x' = x := hx'
      rw [hsame]
      exact hx
  · next hk => exact ⟨rfl, hx, by simp⟩

theorem place_createFailed (error : Thrown) (hx : x.Open) :
    (createFailed key error).wp (placements key).protocol
      (fun a g' => g'.2.Returned key a ∧ a.wasDuplicate = true) (fun _ g' => g'.2.Open)
      (g, x) := by
  refine (Prog.wp_bind _ _ _ _ _).mpr ?_
  refine Rules.wp_sql trivial trivial ?_ ?_
  · intro _ g' x' hn hx'
    have hsame : x' = x := hx'
    subst hsame
    cases hn with
    | rollback =>
      split
      · refine (Prog.wp_bind _ _ _ _ _).mpr
          (Prog.wp_mono (place_findByKey rfl hx) ?_ (fun _ _ h => h))
        rintro found ⟨g', x'⟩ ⟨rfl, hopen, hfound⟩
        cases found with
        | none => exact hopen
        | some e => exact ⟨⟨hopen.2, fun _ => ⟨hopen.1, hfound e rfl⟩, by simp⟩, rfl⟩
      · exact hx
  · intro e g' x' hn hx'
    have hsame : x' = x := hx'
    rw [hsame]
    exact hx

theorem place_createInTransaction (dto : CreateOrderDto) (userId : Uuid) (hx : x.Open)
    (hg : g = .opened) : (createInTransaction dto userId key).wp (placements key).protocol
      (fun a g' => ∃ row, a.row = row ∧ g'.2 = { x with done := some (a.id, row) })
      (fun _ g' => g'.2.Open) (g, x) := by
  subst hg
  have hfailed : ∀ (e : Thrown) (g' : Session schema × Placement), g'.2 = x → g'.2.Open :=
    fun _ _ h => h ▸ hx
  refine (Prog.wp_bind _ _ _ _ _).mpr ?_
  refine Rules.wp_insert (place_silent (by simp [Session.opened]) _) ?_ (fun _ => hx)
  intro o now _ _
  have hopened := Account.opened o { userId, status := .pending, idempotencyKey := key
                                     createdAt := now, updatedAt := now, processedAt := none }
  refine (Prog.wp_bind _ _ _ _ _).mpr ?_
  refine Prog.wp_mono (wp_createItems (fun _ q hq => place_silent hq q) _ hopened) ?_ hfailed
  rintro _ ⟨g', x'⟩ ⟨rfl, hg'⟩
  have hopen : g'.tx ≠ none := by
    rw [hg'.isOpen]
    simp
  refine (Prog.wp_bind _ _ _ _ _).mpr ?_
  refine Prog.wp_mono (wp_findOrderWithItems_open (place_silent hopen)) ?_ hfailed
  rintro found _ ⟨rfl, hfound⟩
  cases found with
  | none => exact hx
  | some e =>
    obtain ⟨hid, hseen⟩ := hfound e rfl
    have hid : e.id = o := by simpa using hid
    refine (Prog.wp_bind _ _ _ _ _).mpr ?_
    refine Rules.wp_sql trivial ⟨hx.1, o, hg'.opens⟩ ?_ ?_
    · rintro _ g'' x'' hn ⟨o', row, ho, rfl⟩
      obtain ⟨w, hw, ht⟩ := ho.written
      have ho' : o' = o := (ho.orders w hw ht).symm.trans (hg'.orders w hw ht)
      have hrow : some row = some e.row := hseen _ (by rw [hid, ← ho']; exact ho.seen)
      obtain rfl := Option.some.inj hrow
      exact ⟨_, rfl, by rw [hid, ho']⟩
    · intro e' g'' x'' hn hx''
      have hsame : x'' = x' := hx''
      rw [hsame]
      exact hx

theorem place_publish {order : OrderEntity} (hmet : x.met)
    (hdone : x.done = some (order.id, order.row)) :
    (publishOrderCreated order).wp (placements key).protocol
      (fun _ g' => g'.2.met ∧ g'.2.done = x.done ∧
        (g'.2.skipped ∨ ∃ m ∈ g'.2.handed, OrderCreated order.id m))
      (fun _ g' => g'.2.done ≠ none ∧ ¬ g'.2.met) (g, x) := by
  have hsome : x.done ≠ none := by simp [hdone]
  refine (Prog.wp_bind _ _ _ _ _).mpr ?_
  refine Rules.wp_other (by simp) trivial ?_ ?_
  · rintro messageId x' ⟨b, rfl, hb⟩
    have hprint : b ↔ Printable order.row := hb _ hdone
    cases hdate : toISOString order.row.createdAt with
    | none =>
      refine ⟨hsome, ?_⟩
      rintro ⟨_, hb'⟩
      simpa [Printable, hdate] using hprint.mp hb'
    | some createdAt =>
      have hb' : b := hprint.mpr (by simp [Printable, hdate])
      refine (Prog.wp_bind _ _ _ _ _).mpr ((Prog.wp_bind _ _ _ _ _).mpr ?_)
      refine Rules.wp_other (by simp) trivial ?_ ?_
      · rintro ready x'' rfl
        cases ready with
        | false => exact ⟨⟨hmet, hb'⟩, rfl, .inl (.inr rfl)⟩
        | true =>
          refine Rules.wp_other (by simp) trivial ?_ ?_
          · rintro accepted x'' (rfl | ⟨rfl, rfl⟩)
            · refine ⟨⟨hmet, hb'⟩, rfl, .inr ?_⟩
              exact ⟨_, List.mem_append_right _ List.mem_cons_self, rfl, rfl, rfl, rfl⟩
            · exact ⟨⟨hmet, hb'⟩, rfl, .inl trivial⟩
          · rintro e x'' rfl
            exact ⟨hsome, id⟩
      · intro e x'' hx''
        exact hx''.elim
  · intro e x' hx'
    exact hx'.elim

theorem place_createOrder (dto : CreateOrderDto) (userId : Uuid) (hg : g.tx = none)
    (hx : x.Open) : (createOrder dto userId key).wp (placements key).protocol
      (fun a g' => g'.2.Returned key a) (fun _ g' => g'.2.Thrown) (g, x) := by
  refine (Prog.wp_bind _ _ _ _ _).mpr ?_
  refine Rules.wp_sql hg trivial ?_ ?_
  · intro _ g' x' hn hx'
    have hsame : x' = x := hx'
    subst hsame
    cases hn with
    | start =>
      refine (Prog.wp_bind _ _ _ _ _).mpr ((Prog.wp_tryCatch _ _ _ _ _).mpr
        ((Prog.wp_bind _ _ _ _ _).mpr ?_))
      refine Prog.wp_mono (place_createInTransaction dto userId hx rfl) ?_ ?_
      · rintro order ⟨g', x'⟩ ⟨row, rfl, rfl⟩
        refine (Prog.wp_bind _ _ _ _ _).mpr
          (Prog.wp_mono (place_publish hx.2 rfl) ?_ (fun _ _ h => .inr h))
        rintro _ ⟨g'', x''⟩ ⟨hmet, hdone, hhanded⟩
        exact ⟨hmet, by simp, fun _ => ⟨⟨_, hdone⟩, hhanded⟩⟩
      · rintro error ⟨g', x'⟩ hopen
        refine (Prog.wp_bind _ _ _ _ _).mpr
          (Prog.wp_mono (place_createFailed error hopen) ?_ (fun _ _ h => .inl h))
        rintro duplicate ⟨g'', x''⟩ ⟨hreturned, _⟩
        exact hreturned
  · intro e g' x' hn hx'
    have hsame : x' = x := hx'
    rw [hsame]
    exact .inl hx

end Calls

theorem place_create (dto : CreateOrderDto) (idempotencyKey : Option String) :
    (create dto idempotencyKey).wp (placements (effectiveKey dto idempotencyKey)).protocol
      (fun a g' => g'.2.Returned (effectiveKey dto idempotencyKey) a)
      (fun _ g' => g'.2.Thrown) (.closed, .begin) := by
  have hbegin : Placement.begin.Open := ⟨rfl, trivial⟩
  refine (Prog.wp_bind _ _ _ _ _).mpr
    (Prog.wp_mono (place_findByKey rfl hbegin) ?_ (fun _ _ h => .inl h))
  rintro found ⟨g', x'⟩ ⟨rfl, hopen, hfound⟩
  cases found with
  | some e => exact ⟨hopen.2, fun _ => ⟨hopen.1, hfound e rfl⟩, by simp⟩
  | none =>
    dsimp only
    split
    · exact .inl hopen
    · refine (Prog.wp_bind _ _ _ _ _).mpr ?_
      refine Rules.wp_findOneById (fun _ => place_select (by simp) _)
        (fun e => ⟨.inl rfl, fun r _ _ hx' => by cases r <;> exact hx'⟩) ?_ ?_
      · intro rows u _ _
        cases rows.head? with
        | none => exact .inl hopen
        | some user => exact place_createOrder dto user.1 rfl hopen
      · intro e
        exact .inl hopen

end Ecomm
